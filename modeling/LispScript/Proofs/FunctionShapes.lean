import LispScript.Proofs.Written

/-!
# The shape of a function and what its body writes

Whether a function is an enumerator, and whether a short lambda has a parameter, is decided by the
signs that stand in its body before anything is written. So the shape fits every sign that is
written out of the body itself, at any depth and also through macros that are defined in it. A macro
that was stored before can bring in a sign that does not stand in the body: then the function has
the shape of one without it.
-/

namespace LispScript

variable {fs : List Form} {table : MacroTable} {g : Form}

/-! ## Signs in a body -/

/-- Writing the forms from the table writes `g` under some limits, either outside of expansions or
though it stands in no body that the table holds. -/
def WritesOwn (fs : List Form) (table : MacroTable) (g : Form) : Prop :=
  ∃ room depth via, Writes room depth (scripts fs) table via g ∧
    (via = [] ∨ ∀ body ∈ table.bodies, g ∉ body.walk)

/-- A sign in what is written out of the forms themselves is found in them beforehand. -/
theorem WritesOwn.contains {sign : Form} {k : Form.Kind} (h : WritesOwn fs table g)
    (hsign : sign ∈ g.walk) (hkind : sign.kind? = some k) : Form.contains fs k = true := by
  obtain ⟨room, depth, via, hwrites, horigin⟩ := h
  obtain ⟨f, hf, hg⟩ := hwrites.mem_walk horigin
  have hfound : sign ∈ f.walk := Form.walk_subset_of_mem_walk hg hsign
  refine List.any_eq_true.mpr ⟨f, form_mem_of_mem_scripts hf, ?_⟩
  refine List.any_eq_true.mpr ⟨sign, hfound, ?_⟩
  rw [hkind, beq_self_eq_true]

/-! ## Functions -/

/-- What a function is introduced by: nothing but its parameters, or a name of some style. -/
inductive FunctionHead
  | anonymous
  | named (style : FunctionStyle) (name : String)
deriving Repr, DecidableEq

/-- The word that introduces a named function. -/
def FunctionStyle.word : FunctionStyle → String
  | .static => "defn"
  | .method => "defmethod"
  | .void => "defvoid"

namespace FunctionHead

/-- The list that makes a function. -/
def form (head : FunctionHead) (params body : List Form) : Form :=
  match head with
  | .anonymous => .list (.word "fn" :: .vector params :: body)
  | .named style name => .list (.word style.word :: .word name :: .vector params :: body)

/-- Whether the function returns nothing even if it does not yield. -/
def void : FunctionHead → Bool
  | .named .void _ => true
  | _ => false

/-- The function in the script. -/
def script : FunctionHead → (returnType parameters code : String) → String
  | .anonymous => Script.anonymousFunction
  | .named .static name => Script.staticFunction name
  | .named .method name | .named .void name => Script.method name

end FunctionHead

end LispScript

import LispScript.Proofs.Coupling

/-!
# The macros that matter to a form

A macro is looked up only for the word at the head of a list that no special construct takes, and of
what is found only the body is used. So the script of a form depends on the macros of the words that
head such lists, in the form and in the bodies of these macros, and on nothing else in the table:
not on parameters, not on other names, and on a macro that is named like a special construct only
where that construct does not take the list.
-/

namespace LispScript

variable {words : Set String} {f : Form} {table table' : MacroTable}

/-- The word at the head of a list that no special construct takes. -/
def Form.calledWord? : Form → Option String
  | .list (.word name :: tail) => if Construct.special? name tail = none then some name else none
  | _ => none

/-- A list that the construct of its head does not take calls its head. -/
theorem Form.calledWord?_of_declined {name : String} {args : List Form}
    (h : Construct.special? name args = none) :
    (Form.list (.word name :: args)).calledWord? = some name := by
  rw [calledWord?, if_pos h]

/-- The words that head such lists at any depth of a form, also in the definitions in it. -/
def Form.calledWords (f : Form) : List String :=
  f.walk.filterMap calledWord?

/-- What the macro of a word stands for. -/
def MacroTable.body? (table : MacroTable) (name : String) : Option Form :=
  (table.lookup? name).map Macro.body

/-- All words that `f` can call are among the given ones. -/
def Form.Calls (words : Set String) (f : Form) : Prop :=
  f.Throughout fun g => ∀ word, g.calledWord? = some word → word ∈ words

/-- It is enough to look at the words that head such lists. -/
theorem Form.calls_iff : f.Calls words ↔ ∀ word ∈ f.calledWords, word ∈ words := by
  constructor
  · intro h word hword
    obtain ⟨g, hg, hcalled⟩ := List.mem_filterMap.mp hword
    exact h g hg word hcalled
  · intro h g hg word hcalled
    exact h word (List.mem_filterMap.mpr ⟨g, hg, hcalled⟩)

/-- Tables whose macros of the given words stand for the same forms, which call such words only. -/
def sameBodies (words : Set String) : Coupling where
  Allows g := ∀ word, g.calledWord? = some word → word ∈ words
  Related entries entries' := ∀ word ∈ words,
    (entries'.lookup word).map Macro.body = (entries.lookup word).map Macro.body ∧
    ∀ m, entries.lookup word = some m → m.body.Calls words
  define {entries entries' name params body} _ hbody h := by
    intro word hword
    obtain ⟨hsame, hcalls⟩ := h word hword
    rw [Table.lookup_assign, Table.lookup_assign]
    by_cases hname : word = name
    · rw [if_pos hname, if_pos hname]
      refine ⟨rfl, ?_⟩
      rintro m ⟨⟩
      exact hbody
    · rw [if_neg hname, if_neg hname]
      exact ⟨hsame, hcalls⟩
  called {entries entries' name args} hallows hdeclined h :=
    h name (hallows name (Form.calledWord?_of_declined hdeclined))

/-- Macros that a form does not lead to cannot change its script. Let the given words hold all words
that the form can call and all that the bodies of their macros can. If two tables have the same
bodies for these words, the form is written alike from both, under any limit and without one, and
behind it the tables again have the same bodies for them. -/
theorem render_eq_of_sameBodies (hactive : table'.active = table.active)
    (hform : ∀ word ∈ f.calledWords, word ∈ words)
    (hclosed : ∀ word ∈ words, ∀ body, table.body? word = some body →
      ∀ inner ∈ body.calledWords, inner ∈ words)
    (hsame : ∀ word ∈ words, table'.body? word = table.body? word) (room : Room) :
    (∀ limit, (render room limit f table').1 = (render room limit f table).1 ∧ ∀ word ∈ words,
      (render room limit f table').2.body? word = (render room limit f table).2.body? word) ∧
    (renderFully room f table').1 = (renderFully room f table).1 ∧ ∀ word ∈ words,
      (renderFully room f table').2.body? word = (renderFully room f table).2.body? word := by
  have htables : (sameBodies words).Tables table table' := by
    refine ⟨fun word hword => ⟨hsame word hword, fun m hm => ?_⟩, hactive⟩
    have hbody : table.body? word = some m.body := congrArg (Option.map Macro.body) hm
    exact Form.calls_iff.mpr (hclosed word hword m.body hbody)
  have hlimited (limit : Nat) :
      (render room limit f table').1 = (render room limit f table).1 ∧ ∀ word ∈ words,
        (render room limit f table').2.body? word = (render room limit f table).2.body? word := by
    have hrun := htables.render_coupled room limit (Form.calls_iff.mpr hform)
    exact ⟨hrun.result_eq, fun word hword => (hrun.tables.related word hword).1⟩
  refine ⟨hlimited, ?_⟩
  have hfull := (inScope_self f table).render_eq room
    (Nat.le_max_left (expansionNeed f table) (expansionNeed f table'))
  have hfull' := (inScope_self f table').render_eq room
    (Nat.le_max_right (expansionNeed f table) (expansionNeed f table'))
  rw [renderFully, renderFully, ← hfull, ← hfull']
  exact hlimited _

/-- Two tables that give `m` the same body and differ in everything else: in its parameters, in a
macro named like a construct that the form uses, and in one that is not called. The body of `m`
calls `if`, since the list has not the shape of that construct, and the form defines a macro of that
name before it calls `m` again. -/
theorem render_eq_of_sameBodies_shadowed :
    let f : Form := .list [.word "do", .list [.word "m", .number "1"],
      .list [.word "def", .word "x", .number "5"],
      .list [.word "defmacro", .word "if", .vector [], .number "7"], .list [.word "m"]]
    let body : Form := .list [.operator "+", .list [.word "if", .word "y"], .number "1"]
    let table : MacroTable := ⟨[("m", ⟨["a", "b"], body⟩), ("def", ⟨[], .number "0"⟩)], []⟩
    let table' : MacroTable := ⟨[("loop", ⟨[], .list [.word "loop"]⟩), ("m", ⟨[], body⟩)], []⟩
    f.calledWords = ["m", "m"] ∧ body.calledWords = ["if"] ∧
      (renderFully (some 5) f table').1 = (renderFully (some 5) f table).1 ∧
      (renderFully (some 5) f table').2.body? "if" =
        (renderFully (some 5) f table).2.body? "if" := by
  intro f body table table'
  have hform : f.calledWords = ["m", "m"] := by cbv
  have hbody : body.calledWords = ["if"] := by cbv
  have hm : table.body? "m" = some body := by decide
  have hif : table.body? "if" = none := by decide
  have hclosed : ∀ word ∈ ({"m", "if"} : Set String), ∀ found, table.body? word = some found →
      ∀ inner ∈ found.calledWords, inner ∈ ({"m", "if"} : Set String) := by
    rintro word (rfl | rfl) found hfound
    · rw [hm, Option.some.injEq] at hfound
      simp [← hfound, hbody]
    · rw [hif] at hfound
      cases hfound
  have hsame : ∀ word ∈ ({"m", "if"} : Set String), table'.body? word = table.body? word := by
    rintro word (rfl | rfl)
    · rw [hm]
      decide
    · rw [hif]
      decide
  have hwords : ∀ word ∈ f.calledWords, word ∈ ({"m", "if"} : Set String) := by simp [hform]
  have hactive : table'.active = table.active := rfl
  obtain ⟨-, htext, hbodies⟩ := render_eq_of_sameBodies hactive hwords hclosed hsame (some 5)
  exact ⟨hform, hbody, htext, hbodies "if" (Or.inr rfl)⟩

end LispScript

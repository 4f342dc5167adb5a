import LispScript.Form

/-!
# Nesting of forms

The nesting of a form is the largest number of forms inside each other that it holds, itself
included. A hint counts as one form, since it is read from one token and written in one step.
-/

namespace LispScript.Form

mutual

/-- How deep a form is nested. -/
def nesting : Form → Nat
  | shortLambda body => nesting body + 1
  | getter target => nesting target + 1
  | list items => nestings items + 1
  | vector items => nestings items + 1
  | map items => nestings items + 1
  | _ => 1

/-- How deep the deepest of several forms is nested. -/
def nestings : List Form → Nat
  | [] => 0
  | f :: fs => max (nesting f) (nestings fs)

end

/-- Every form is at least one level deep. -/
theorem nesting_pos (f : Form) : 0 < f.nesting := by
  cases f <;> simp [nesting]

/-- Forms are nested within a limit if each of them is. -/
theorem nestings_le_iff {fs : List Form} {n : Nat} :
    nestings fs ≤ n ↔ ∀ f ∈ fs, f.nesting ≤ n := by
  induction fs with
  | nil => simp [nestings]
  | cons f fs ih => simp only [nestings, Nat.max_le, ih, List.forall_mem_cons]

end LispScript.Form

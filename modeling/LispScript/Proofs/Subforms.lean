import LispScript.Form

/-!
# Forms below a form

Walking a form with a stack visits it and then, one after the other, everything below its parts. So
the forms at any depth of a part are among the forms at any depth of the whole.
-/

namespace LispScript.Form

/-- What lies deeper on the stack is visited behind everything above it. -/
theorem visit_append (fs gs : List Form) : visit (fs ++ gs) = visit fs ++ visit gs := by
  fun_induction visit fs with
  | case1 => simp
  | case2 f stack ih =>
    rw [List.cons_append, visit, ← List.append_assoc, ih, List.cons_append]

/-- A walk visits the form and then everything below it. -/
theorem walk_eq (f : Form) : f.walk = f :: visit f.children := by
  rw [walk, visit, List.append_nil]

/-- Forms on a stack are walked one after the other. -/
theorem visit_eq_flatMap (fs : List Form) : visit fs = fs.flatMap walk := by
  induction fs with
  | nil => rw [visit, List.flatMap_nil]
  | cons f fs ih =>
    have hcons : f :: fs = [f] ++ fs := rfl
    rw [hcons, visit_append, ih]
    rfl

/-- The forms at any depth of a form are itself and those of its parts. -/
theorem mem_walk_iff {f g : Form} : g ∈ f.walk ↔ g = f ∨ ∃ part ∈ f.children, g ∈ part.walk := by
  rw [walk_eq, List.mem_cons, visit_eq_flatMap, List.mem_flatMap]

/-- A form is visited on its own walk. -/
theorem mem_walk_self (f : Form) : f ∈ f.walk :=
  mem_walk_iff.mpr (Or.inl rfl)

/-- What is visited below a part is visited below the whole. -/
theorem walk_subset_of_mem_children {f part : Form} (h : part ∈ f.children) :
    part.walk ⊆ f.walk := by
  intro g hg
  exact mem_walk_iff.mpr (Or.inr ⟨part, h, hg⟩)

/-- What lies below a form that is visited is visited too. -/
theorem walk_subset_visit {g : Form} {fs : List Form} (h : g ∈ visit fs) : g.walk ⊆ visit fs := by
  fun_induction visit fs with
  | case1 => cases h
  | case2 f stack ih =>
    rcases List.mem_cons.mp h with rfl | h
    · rw [walk_eq, visit_append]
      exact List.cons_subset_cons _ (List.subset_append_left _ _)
    · exact List.subset_cons_of_subset _ (ih h)

/-- So is what is visited below anything at any depth. -/
theorem walk_subset_of_mem_walk {f g : Form} (h : g ∈ f.walk) : g.walk ⊆ f.walk :=
  walk_subset_visit h

end LispScript.Form

import LispScript.Proofs.Subforms
import Mathlib.Data.List.Basic
import Mathlib.Logic.Function.Iterate

/-!
# Walking a form with a stack

The forms at all depths of a form are visited with one stack and no recursion: the top form leaves
the stack and is visited, and its parts go on the stack, the last one first. At every moment what
was visited, followed by what the forms on the stack still owe from the top down, is the recursive
walk over the form. Each turn of the loop pays one form of that debt, so the loop ends after as many
turns as there are forms, whatever their shape, and a form is visited exactly if it occurs at some
depth.
-/

namespace LispScript.Form

variable {f g : Form} {depth : Nat}

/-! ## The walk by recursion -/

mutual

/-- A form, and then the walks over its parts from left to right. -/
def preorder : Form → List Form
  | hint parts => hint parts :: preorders parts
  | shortLambda body => shortLambda body :: preorder body
  | getter target => getter target :: preorder target
  | list items => list items :: preorders items
  | vector items => vector items :: preorders items
  | map items => map items :: preorders items
  | f => [f]

/-- The walks over several forms, one behind the other. -/
def preorders : List Form → List Form
  | [] => []
  | f :: fs => preorder f ++ preorders fs

end

/-- Several forms are walked over one after the other. -/
theorem preorders_eq_flatMap (fs : List Form) : preorders fs = fs.flatMap preorder := by
  induction fs with
  | nil => simp [preorders]
  | cons f fs ih => simp [preorders, ih]

/-- A form comes first, and then everything below its parts. -/
theorem preorder_eq (f : Form) : f.preorder = f :: f.children.flatMap preorder := by
  cases f <;> simp [preorder, children, preorders_eq_flatMap]

/-- No walk is empty. -/
theorem preorder_ne_nil (f : Form) : f.preorder ≠ [] := by
  rw [preorder_eq]
  exact List.cons_ne_nil _ _

mutual

/-- A walk is as long as the form is large. -/
theorem length_preorder (f : Form) : f.preorder.length = f.size := by
  cases f with
  | hint fs | list fs | vector fs | map fs => simp [preorder, size, length_preorders fs]
  | shortLambda g | getter g => simp [preorder, size, length_preorder g]
  | _ => simp [preorder, size]

/-- So are the walks over several forms together. -/
theorem length_preorders (fs : List Form) : (preorders fs).length = sizes fs := by
  cases fs with
  | nil => simp [preorders, sizes]
  | cons f fs => simp [preorders, sizes, length_preorder f, length_preorders fs]

end

/-! ## The loop, turn by turn -/

/-- A walk that is under way. -/
structure Walk where
  visited : List Form
  /-- What is still to be visited, with the top of the stack at the end. -/
  stack : List Form
deriving Repr, DecidableEq

namespace Walk

/-- Before the first turn only the form itself is on the stack. -/
def start (f : Form) : Walk :=
  { visited := [], stack := [f] }

/-- One turn of the loop. A walk with an empty stack is over and stays as it is. -/
def turn (w : Walk) : Walk :=
  match w.stack.getLast? with
  | none => w
  | some f => { visited := w.visited ++ [f], stack := w.stack.dropLast ++ f.children.reverse }

/-- What the forms on the stack still owe, from the top down. -/
def owed (w : Walk) : List Form :=
  w.stack.reverse.flatMap preorder

/-- Nothing is owed exactly if nothing is on the stack. -/
theorem owed_eq_nil_iff (w : Walk) : w.owed = [] ↔ w.stack = [] := by
  rw [owed, List.flatMap_eq_nil_iff]
  constructor
  · intro h
    refine List.eq_nil_iff_forall_not_mem.mpr fun f hf => ?_
    exact f.preorder_ne_nil (h f (List.mem_reverse.mpr hf))
  · intro h
    simp [h]

/-- A turn pays the first form of the debt, and nothing else changes. -/
theorem turn_eq (w : Walk) :
    w.turn.visited = w.visited ++ w.owed.take 1 ∧ w.turn.owed = w.owed.drop 1 := by
  rcases List.eq_nil_or_concat' w.stack with hstack | ⟨rest, f, hstack⟩
  · have howed : w.owed = [] := w.owed_eq_nil_iff.mpr hstack
    have hturn : w.turn = w := by simp [turn, hstack]
    simp [hturn, howed]
  · have hturn : w.turn = { visited := w.visited ++ [f], stack := rest ++ f.children.reverse } := by
      simp [turn, hstack]
    have howed : w.owed = f :: (f.children ++ rest.reverse).flatMap preorder := by
      rw [owed, hstack, List.reverse_concat, List.flatMap_cons, preorder_eq, List.flatMap_append,
        List.cons_append]
    have hrest : w.turn.owed = (f.children ++ rest.reverse).flatMap preorder := by
      rw [hturn, owed, List.reverse_append, List.reverse_reverse]
    rw [hrest, howed, hturn]
    exact ⟨rfl, rfl⟩

/-- Behind any number of turns, that many forms of the recursive walk are visited and the others are
owed. -/
theorem iterate_turn (f : Form) (n : Nat) :
    (turn^[n] (start f)).visited = f.preorder.take n ∧
      (turn^[n] (start f)).owed = f.preorder.drop n := by
  induction n with
  | zero => simp [start, owed]
  | succ n ih =>
    obtain ⟨hvisited, howed⟩ := ih
    rw [Function.iterate_succ_apply']
    obtain ⟨hvisited', howed'⟩ := (turn^[n] (start f)).turn_eq
    rw [hvisited', howed', hvisited, howed, List.drop_drop, List.take_add]
    exact ⟨rfl, rfl⟩

end Walk

/-! ## What is visited -/

/-- The forms on a stack are visited in the order of the recursive walk. -/
theorem visit_eq_preorders (stack : List Form) : visit stack = stack.flatMap preorder := by
  fun_induction visit stack with
  | case1 => rfl
  | case2 f stack ih =>
    rw [ih, List.flatMap_append, List.flatMap_cons, preorder_eq, List.cons_append]

/-- The walk with a stack is the recursive walk. -/
theorem walk_eq_preorder (f : Form) : f.walk = f.preorder := by
  rw [walk, visit_eq_preorders, List.flatMap_singleton]

/-- `g` occurs in `f`, inside of as many forms as the depth says. -/
inductive OccursAt : Nat → Form → Form → Prop
  | here {f : Form} : OccursAt 0 f f
  | inside {depth : Nat} {f part g : Form} (isPart : part ∈ f.children)
      (occurs : OccursAt depth part g) : OccursAt (depth + 1) f g

/-- What occurs at some depth is visited. -/
theorem OccursAt.mem_walk (h : OccursAt depth f g) : g ∈ f.walk := by
  induction h with
  | here => exact mem_walk_self _
  | inside isPart _ ih => exact walk_subset_of_mem_children isPart ih

/-- What is visited occurs at some depth of a form on the stack. -/
theorem exists_occursAt_of_mem_visit {stack : List Form} (h : g ∈ visit stack) :
    ∃ f ∈ stack, ∃ depth, OccursAt depth f g := by
  fun_induction visit stack with
  | case1 => cases h
  | case2 f stack ih =>
    rcases List.mem_cons.mp h with rfl | h
    · exact ⟨g, List.mem_cons_self, 0, .here⟩
    obtain ⟨below, hbelow, depth, hoccurs⟩ := ih h
    rcases List.mem_append.mp hbelow with hpart | hstack
    · exact ⟨f, List.mem_cons_self, depth + 1, .inside hpart hoccurs⟩
    · exact ⟨below, List.mem_cons_of_mem _ hstack, depth, hoccurs⟩

/-- A form is visited exactly if it occurs at some depth. -/
theorem mem_walk_iff_occursAt : g ∈ f.walk ↔ ∃ depth, OccursAt depth f g := by
  constructor
  · intro h
    obtain ⟨_, hf, hoccurs⟩ := exists_occursAt_of_mem_visit h
    rwa [List.mem_singleton.mp hf] at hoccurs
  · rintro ⟨depth, hoccurs⟩
    exact hoccurs.mem_walk

/-- Forms contain a kind exactly if a form of that kind occurs in one of them at some depth. -/
theorem contains_eq_true_iff {forms : List Form} {k : Kind} :
    contains forms k = true ↔ ∃ f ∈ forms, ∃ depth g, OccursAt depth f g ∧ g.kind? = some k := by
  simp only [contains, List.any_eq_true, beq_iff_eq, mem_walk_iff_occursAt]
  constructor
  · rintro ⟨f, hf, g, ⟨depth, hoccurs⟩, hkind⟩
    exact ⟨f, hf, depth, g, hoccurs, hkind⟩
  · rintro ⟨f, hf, depth, g, hoccurs, hkind⟩
    exact ⟨f, hf, g, ⟨depth, hoccurs⟩, hkind⟩

/-- The walk with a stack is the walk by recursion. Behind any number of turns the loop has visited
that many forms of the recursive walk, in its order, and its stack is empty exactly from the turn on
at which there is none left; so it ends, and visits the form itself and then its parts with
everything below them, from left to right. Hence a kind is found in forms exactly if a form of that
kind occurs in one of them, at any depth. -/
theorem walk_visits_preorder (f : Form) :
    (∀ n, (Walk.turn^[n] (Walk.start f)).visited = f.preorder.take n ∧
      ((Walk.turn^[n] (Walk.start f)).stack = [] ↔ f.size ≤ n)) ∧
    f.walk = f.preorder ∧ f.walk = f :: f.children.flatMap walk ∧
    ∀ forms k, contains forms k = true ↔
      ∃ top ∈ forms, ∃ depth g, OccursAt depth top g ∧ g.kind? = some k := by
  refine ⟨fun n => ?_, f.walk_eq_preorder, ?_, fun forms k => contains_eq_true_iff⟩
  · obtain ⟨hvisited, howed⟩ := Walk.iterate_turn f n
    refine ⟨hvisited, ?_⟩
    rw [← Walk.owed_eq_nil_iff, howed, List.drop_eq_nil_iff, length_preorder]
  · rw [walk_eq, visit_eq_flatMap]

end LispScript.Form

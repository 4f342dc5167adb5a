import LispScript.Form.Printer
import LispScript.Proofs.Nesting
import LispScript.Proofs.Subforms

/-!
# Which forms can be printed

The height of a form is the number of forms inside each other that it holds, itself included. Other
than for its nesting, the parts of a hint count here, since they are printed one by one. There is
room for printing a form exactly if there is room for its height, and then the text is the same as
without a limit.
-/

namespace LispScript

variable {α β : Type}

/-! ## Results for which there has to be room -/

/-- Whether there is room for `n` forms inside each other. -/
def Room.holds (room : Room) (n : Nat) : Bool :=
  room.all (n ≤ ·)

/-- A result for which `n` forms inside each other are worked on, if there is room for them. -/
def Room.within (room : Room) (n : Nat) (a : α) : Except TooDeep α :=
  if room.holds n then .ok a else .error {}

namespace Room

/-- A limited room holds the numbers up to the limit. -/
@[simp] theorem holds_some {m n : Nat} : holds (some m) n = true ↔ n ≤ m := by
  simp [holds]

/-- Without a limit there is room for everything. -/
@[simp] theorem holds_none (n : Nat) : holds none n = true := rfl

/-- A room that holds two numbers of forms holds the larger one. -/
theorem holds_max {room : Room} {m n : Nat} :
    room.holds (max m n) = true ↔ room.holds m = true ∧ room.holds n = true := by
  cases room with
  | none => simp
  | some limit => simp only [holds_some, Nat.max_le]

/-- A room that holds some number of forms holds every smaller one. -/
theorem holds_of_le {room : Room} {m n : Nat} (h : room.holds n = true) (hle : m ≤ n) :
    room.holds m = true := by
  cases room with
  | none => rfl
  | some limit => exact holds_some.mpr (Nat.le_trans hle (holds_some.mp h))

/-- Where there is room there is a result. -/
theorem within_of_holds {room : Room} {n : Nat} (h : room.holds n = true) (a : α) :
    room.within n a = .ok a :=
  if_pos h

/-- Where there is no room there is no result. -/
theorem within_of_not_holds {room : Room} {n : Nat} (h : room.holds n = false) (a : α) :
    room.within n a = .error {} := by
  rw [within, h]
  rfl

/-- If there is a result, it is the one for which there was room. -/
theorem eq_of_within {room : Room} {n : Nat} {a b : α} (h : room.within n a = .ok b) : b = a := by
  unfold within at h
  split at h
  · exact (Except.ok.inj h).symm
  · cases h

/-- There is always room for no form. -/
theorem within_zero (room : Room) (a : α) : room.within 0 a = .ok a := by
  cases room <;> rfl

/-- What is made of a result needs no more room. -/
theorem map_within (room : Room) (n : Nat) (a : α) (g : α → β) :
    (do return g (← room.within n a)) = room.within n (g a) := by
  unfold within
  split <;> rfl

/-- Two results one after the other need the room of the larger one. -/
theorem within_bind_within (room : Room) (m n : Nat) (a : α) (g : α → β) :
    (do
      let x ← room.within m a
      room.within n (g x)) = room.within (max m n) (g a) := by
  cases hm : room.holds m with
  | false =>
    have hmax : room.holds (max m n) = false := by
      rw [Bool.eq_false_iff] at hm ⊢
      exact fun h => hm (holds_max.mp h).1
    rw [within_of_not_holds hm, within_of_not_holds hmax]
    rfl
  | true =>
    have hmax : room.holds (max m n) = room.holds n := by
      rw [Bool.eq_iff_iff, holds_max]
      simp [hm]
    rw [within_of_holds hm]
    change room.within n (g a) = _
    rw [within, within, hmax]

/-- What needs room for `n` forms inside of a form needs room for one more with it. -/
theorem inside_bind {n : Nat} {a : α} {x : Room → Except TooDeep α}
    (h : ∀ room, x room = room.within n a) (room : Room) :
    (room.inside >>= x) = room.within (n + 1) a := by
  rcases room with _ | _ | limit
  · exact (h none).trans rfl
  · exact (within_of_not_holds (by simp [holds]) a).symm
  · have hsame : holds (some (limit + 1)) (n + 1) = holds (some limit) n := by simp [holds]
    rw [within, hsame]
    exact h (some limit)

end Room

/-! ## The height of forms -/

namespace Form

mutual

/-- How many forms inside each other a form holds, the parts of hints included. -/
def height : Form → Nat
  | hint parts => heights parts + 1
  | shortLambda body => height body + 1
  | getter target => height target + 1
  | list items => heights items + 1
  | vector items => heights items + 1
  | map items => heights items + 1
  | _ => 1

/-- The height of the highest of several forms. -/
def heights : List Form → Nat
  | [] => 0
  | f :: fs => max (height f) (heights fs)

end

/-- Several forms are at most `n` high if each of them is. -/
theorem heights_le_iff {fs : List Form} {n : Nat} :
    heights fs ≤ n ↔ ∀ f ∈ fs, f.height ≤ n := by
  induction fs with
  | nil => simp [heights]
  | cons f fs ih => simp only [heights, Nat.max_le, ih, List.forall_mem_cons]

/-- A form is one higher than its parts. -/
theorem height_eq (f : Form) : f.height = heights f.children + 1 := by
  cases f <;> simp [height, heights, children]

/-- No form at any depth of a form is higher than it. -/
theorem height_le_of_mem_walk {f g : Form} (h : g ∈ f.walk) : g.height ≤ f.height := by
  -- along the stack of the walk: what is visited is no higher than what lies on the stack
  have hvisit (fs : List Form) : ∀ g ∈ visit fs, g.height ≤ heights fs := by
    fun_induction visit fs with
    | case1 => simp
    | case2 f stack ih =>
      intro g hg
      rcases List.mem_cons.mp hg with rfl | hg
      · exact Nat.le_max_left _ _
      · refine Nat.le_trans (ih g hg) (heights_le_iff.mpr fun part hpart => ?_)
        rcases List.mem_append.mp hpart with hpart | hpart
        · have hle := heights_le_iff.mp (Nat.le_refl _) part hpart
          have heq := f.height_eq
          exact Nat.le_trans (by omega) (Nat.le_max_left _ _)
        · exact heights_le_iff.mp (Nat.le_refl _) part (List.mem_cons_of_mem _ hpart)
  simpa [heights] using hvisit [f] g h

/-! ## Printing within a room -/

mutual

/-- A form can be printed if there is room for its height. -/
theorem printWithin_eq : ∀ (f : Form) (room : Room),
    f.printWithin room = room.within f.height f.print
  | hint items, room | list items, room | vector items, room | map items, room => by
    simp only [printWithin, height, print]
    refine Room.inside_bind (fun inner => ?_) room
    rw [printItemsWithin_eq items inner, Room.map_within]
  | shortLambda inside, room | getter inside, room => by
    simp only [printWithin, height, print]
    refine Room.inside_bind (fun inner => ?_) room
    rw [printWithin_eq inside inner, Room.map_within]
  | hole, room | word _, room | number _, room | string _, room | keyword _, room
  | operator _, room | accessor _, room | method _, room | yield, room | placeholder, room => by
    simp only [printWithin, height]
    exact Room.inside_bind (fun inner => (Room.within_zero inner _).symm) room

/-- Several forms can be printed if there is room for the highest. -/
theorem printItemsWithin_eq : ∀ (fs : List Form) (room : Room),
    printItemsWithin room fs = room.within (heights fs) (printItems fs)
  | [], room => (Room.within_zero room _).symm
  | f :: fs, room => by
    rw [printItemsWithin, printWithin_eq f room, printMoreWithin_eq fs room]
    simp only [Room.map_within]
    exact Room.within_bind_within room _ _ _ (· ++ printMore fs)

/-- The same for the forms that follow a first one. -/
theorem printMoreWithin_eq : ∀ (fs : List Form) (room : Room),
    printMoreWithin room fs = room.within (heights fs) (printMore fs)
  | [], room => (Room.within_zero room _).symm
  | f :: fs, room => by
    rw [printMoreWithin, printWithin_eq f room, printMoreWithin_eq fs room]
    simp only [Room.map_within]
    exact Room.within_bind_within room _ _ _ (" " ++ · ++ printMore fs)

end

/-- The same for texts that are kept apart. -/
theorem mapM_printWithin_eq (fs : List Form) (room : Room) :
    fs.mapM (printWithin room) = room.within (heights fs) (fs.map print) := by
  induction fs with
  | nil => exact (Room.within_zero room _).symm
  | cons f fs ih =>
    rw [List.mapM_cons, printWithin_eq, ih]
    simp only [Room.map_within]
    exact Room.within_bind_within room _ _ _ (· :: fs.map print)

end Form

end LispScript

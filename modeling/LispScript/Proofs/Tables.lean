import LispScript.Table
import Mathlib.Data.List.Induction
import Mathlib.Data.List.Nodup
import Mathlib.Tactic.Tauto

/-!
# What a table holds

After a key was given a value it is found with that value, and every other key with the value it
had. The keys keep their order: a key that was there stays where it was, and a new one comes last.
So giving keys their values once more, in the same order, changes nothing.
-/

namespace LispScript.Table

variable {α β : Type} {key other : α} {value : β} {entries : List (α × β)}

/-! ## Looking up -/

section Lookup

variable [BEq α] [LawfulBEq α]

/-- What is found stands in the table. -/
theorem mem_of_lookup (h : entries.lookup key = some value) : (key, value) ∈ entries := by
  obtain ⟨front, back, rfl, -⟩ := List.lookup_eq_some_iff.mp h
  simp

/-- In a table without double keys each value is found under its key. -/
theorem lookup_eq_some_iff_mem (h : (entries.map Prod.fst).Nodup) :
    entries.lookup key = some value ↔ (key, value) ∈ entries := by
  refine ⟨mem_of_lookup, fun hmem => ?_⟩
  obtain ⟨front, back, rfl⟩ := List.append_of_mem hmem
  rw [List.map_append, List.map_cons, List.nodup_append] at h
  refine List.lookup_eq_some_iff.mpr ⟨front, back, rfl, fun item hitem => ?_⟩
  rw [bne_iff_ne]
  exact Ne.symm (h.2.2 item.1 (List.mem_map_of_mem hitem) key List.mem_cons_self)

variable [DecidableEq α]

/-- The first entry with a key tells its value. -/
theorem lookup_cons (first : α) (value : β) (rest : List (α × β)) (key : α) :
    ((first, value) :: rest).lookup key = if key = first then some value else rest.lookup key := by
  rw [List.lookup_cons]
  by_cases hkey : key = first
  · rw [if_pos hkey, beq_iff_eq.mpr hkey]
  · rw [if_neg hkey, beq_eq_false_iff_ne.mpr hkey]

/-- A value is found under the key that it was given to, and all others as before. -/
theorem lookup_assign (key : α) (value : β) (entries : List (α × β)) (other : α) :
    (assign key value entries).lookup other =
      if other = key then some value else entries.lookup other := by
  induction entries with
  | nil => rw [assign, lookup_cons]
  | cons entry rest ih =>
    obtain ⟨first, old⟩ := entry
    rw [assign, lookup_cons first old]
    by_cases hfirst : first = key
    · rw [if_pos hfirst, lookup_cons, hfirst]
      split <;> rfl
    · rw [if_neg hfirst, lookup_cons, ih]
      by_cases hother : other = first
      · rw [if_pos hother, if_pos hother, if_neg (hother ▸ hfirst)]
      · rw [if_neg hother, if_neg hother]

end Lookup

/-! ## Entries and keys -/

variable [DecidableEq α]

/-- An entry was there before, or is the new one. -/
theorem mem_assign {entry : α × β} (h : entry ∈ assign key value entries) :
    entry = (key, value) ∨ entry ∈ entries := by
  induction entries with
  | nil => exact Or.inl (List.mem_singleton.mp h)
  | cons first rest ih =>
    obtain ⟨other, old⟩ := first
    rw [assign] at h
    split at h
    · rcases List.mem_cons.mp h with h | h
      · exact Or.inl h
      · exact Or.inr (List.mem_cons_of_mem _ h)
    · rcases List.mem_cons.mp h with h | h
      · exact Or.inr (h ▸ List.mem_cons_self)
      · exact (ih h).imp_right (List.mem_cons_of_mem _)

/-- The keys stay in their order, and a new one comes last. -/
theorem keys_assign (key : α) (value : β) (entries : List (α × β)) :
    (assign key value entries).map Prod.fst =
      if key ∈ entries.map Prod.fst then entries.map Prod.fst
      else entries.map Prod.fst ++ [key] := by
  induction entries with
  | nil => simp [assign]
  | cons first rest ih =>
    obtain ⟨other, old⟩ := first
    by_cases hother : other = key
    · subst hother
      simp [assign]
    · rw [assign, if_neg hother, List.map_cons, ih]
      split_ifs with hrest hall hall
      · rfl
      · simp [hrest] at hall
      · simp [Ne.symm hother, hrest] at hall
      · rfl

/-- The keys are the new one and those that were there. -/
theorem mem_keys_assign :
    other ∈ (assign key value entries).map Prod.fst ↔
      other = key ∨ other ∈ entries.map Prod.fst := by
  rw [keys_assign]
  split_ifs with hmem
  · refine ⟨Or.inr, fun h => ?_⟩
    rcases h with rfl | h
    · exact hmem
    · exact h
  · rw [List.mem_append, List.mem_singleton, or_comm]

/-- No key is doubled. -/
theorem nodup_keys_assign (h : (entries.map Prod.fst).Nodup) :
    ((assign key value entries).map Prod.fst).Nodup := by
  rw [keys_assign]
  split_ifs with hmem
  · exact h
  · rw [← List.concat_eq_append]
    exact h.concat hmem

/-! ## Several values one after the other -/

variable {new : β}

/-- Of a value that is replaced at once nothing is left. -/
theorem assign_assign : assign key value (assign key new entries) = assign key value entries := by
  induction entries with
  | nil => simp [assign]
  | cons entry rest ih =>
    obtain ⟨first, old⟩ := entry
    by_cases hfirst : first = key
    · simp [assign, hfirst]
    · simp [assign, hfirst, ih]

/-- Two keys can get their values in either order if one of them was there before. If both are new,
the order of the table tells which came first. -/
theorem assign_comm (hne : other ≠ key) (hother : other ∈ entries.map Prod.fst) :
    assign other new (assign key value entries) = assign key value (assign other new entries) := by
  induction entries with
  | nil => cases hother
  | cons entry rest ih =>
    obtain ⟨first, old⟩ := entry
    by_cases hkey : first = key
    · subst hkey
      simp [assign, hne.symm]
    · by_cases hfirst : first = other
      · subst hfirst
        simp [assign, hne]
      · have hrest : other ∈ rest.map Prod.fst :=
          (List.mem_cons.mp hother).resolve_left (Ne.symm hfirst)
        simp [assign, hkey, hfirst, ih hrest]

/-- Gives keys their values one after the other. -/
def assignAll (pairs entries : List (α × β)) : List (α × β) :=
  pairs.foldl (fun entries pair => assign pair.1 pair.2 entries) entries

variable {pairs : List (α × β)}

/-- The first key gets its value first. -/
theorem assignAll_cons (pair : α × β) :
    assignAll (pair :: pairs) entries = assignAll pairs (assign pair.1 pair.2 entries) := rfl

/-- The last key gets its value last. -/
theorem assignAll_concat (pair : α × β) :
    assignAll (pairs ++ [pair]) entries = assign pair.1 pair.2 (assignAll pairs entries) := by
  rw [assignAll, List.foldl_append]
  rfl

/-- All keys are there afterwards, those that were there before and those that got a value. -/
theorem mem_keys_assignAll (h : other ∈ pairs.map Prod.fst ∨ other ∈ entries.map Prod.fst) :
    other ∈ (assignAll pairs entries).map Prod.fst := by
  induction pairs generalizing entries with
  | nil => exact h.resolve_left List.not_mem_nil
  | cons pair pairs ih =>
    rw [assignAll_cons]
    refine ih ?_
    rw [mem_keys_assign]
    rw [List.map_cons, List.mem_cons] at h
    tauto

/-- What is given behind the others need not be given in front of them too, if their keys were there
before: it finds its way behind those of other keys, and one of its own key replaces it. -/
theorem assign_assignAll_assign (hkeys : ∀ pair ∈ pairs, pair.1 ∈ entries.map Prod.fst) :
    assign key value (assignAll pairs (assign key value entries)) =
      assign key value (assignAll pairs entries) := by
  induction pairs generalizing entries with
  | nil => exact assign_assign
  | cons pair pairs ih =>
    obtain ⟨hfirst, hlater⟩ := List.forall_mem_cons.mp hkeys
    rw [assignAll_cons, assignAll_cons]
    by_cases hkey : pair.1 = key
    · rw [hkey, assign_assign]
    · rw [assign_comm hkey hfirst]
      exact ih fun later h => mem_keys_assign.mpr (Or.inr (hlater later h))

/-- Giving keys their values a second time changes nothing. -/
theorem assignAll_assignAll (pairs entries : List (α × β)) :
    assignAll pairs (assignAll pairs entries) = assignAll pairs entries := by
  induction pairs using List.reverseRecOn with
  | nil => rfl
  | append_singleton pairs pair ih =>
    have hkeys : ∀ earlier ∈ pairs, earlier.1 ∈ (assignAll pairs entries).map Prod.fst :=
      fun earlier h => mem_keys_assignAll (Or.inl (List.mem_map_of_mem h))
    rw [assignAll_concat, assignAll_concat, assign_assignAll_assign hkeys, ih]

end LispScript.Table

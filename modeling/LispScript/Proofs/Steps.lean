/-!
# Steps that can fail

Reading and writing are both made of steps on a state, and a step that fails keeps the state it got
to. What a sequence of steps does is told by what its first step does.
-/

namespace LispScript.Steps

variable {ε σ α β : Type}

/-- Behind a step that succeeds the next one starts with its value and its state. -/
theorem bind_of_ok {x : ExceptT ε (StateM σ) α} {f : α → ExceptT ε (StateM σ) β} {s s' : σ} {a : α}
    (h : x s = (.ok a, s')) : (x >>= f) s = f a s' := by
  change (ExceptT.bindCont f (x s).1) (x s).2 = _
  rw [h]
  rfl

/-- Behind a step that fails nothing is done. -/
theorem bind_of_error {x : ExceptT ε (StateM σ) α} {f : α → ExceptT ε (StateM σ) β} {s s' : σ}
    {e : ε} (h : x s = (.error e, s')) : (x >>= f) s = (.error e, s') := by
  change (ExceptT.bindCont f (x s).1) (x s).2 = _
  rw [h]
  rfl

/-- A sequence that succeeds does so in both parts. -/
theorem bind_eq_ok {x : ExceptT ε (StateM σ) α} {f : α → ExceptT ε (StateM σ) β} {s s'' : σ} {b : β}
    (h : (x >>= f) s = (.ok b, s'')) :
    ∃ a s', x s = (.ok a, s') ∧ f a s' = (.ok b, s'') := by
  cases hx : x s with
  | mk result s' =>
    cases result with
    | error e =>
      rw [bind_of_error hx] at h
      cases h
    | ok a =>
      rw [bind_of_ok hx] at h
      exact ⟨a, s', rfl, h⟩

/-- A sequence that fails does so in its first part, or behind it. -/
theorem bind_eq_error {x : ExceptT ε (StateM σ) α} {f : α → ExceptT ε (StateM σ) β} {s s'' : σ}
    {e : ε} (h : (x >>= f) s = (.error e, s'')) :
    x s = (.error e, s'') ∨ ∃ a s', x s = (.ok a, s') ∧ f a s' = (.error e, s'') := by
  cases hx : x s with
  | mk result s' =>
    cases result with
    | error found =>
      rw [bind_of_error hx] at h
      cases h
      exact .inl rfl
    | ok a =>
      rw [bind_of_ok hx] at h
      exact .inr ⟨a, s', rfl, h⟩

/-- A step that asks for the state gets it as it is. -/
theorem get_bind (f : σ → ExceptT ε (StateM σ) α) (s : σ) :
    ((get : ExceptT ε (StateM σ) σ) >>= f) s = f s s := rfl

/-- Changing the value of a step leaves its state alone. -/
theorem map_apply (g : α → β) (x : ExceptT ε (StateM σ) α) (s : σ) :
    (g <$> x) s = ((x s).1.map g, (x s).2) := by
  cases hx : x s with
  | mk result s' =>
    cases result with
    | error e => exact bind_of_error (f := fun a => pure (g a)) hx
    | ok a => exact bind_of_ok (f := fun a => pure (g a)) hx

end LispScript.Steps

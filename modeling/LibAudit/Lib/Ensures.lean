import Mathlib.Tactic.Basic

/-!
# What a computation that may fail ensures

`Ensures Q x` says that the value of `x` satisfies `Q` if there is one.  There is a rule for every way
to put computations together, so a function is checked along its text, with one goal for each way it
can end.
-/

namespace LibAudit

variable {ε α β : Type} {P Q : α → Prop}

/-- If `x` does not fail, its value satisfies `Q`. -/
def Ensures (Q : α → Prop) : Except ε α → Prop
  | .ok a => Q a
  | .error _ => True

variable {x : Except ε α}

theorem Ensures.of_eq {a : α} (h : Ensures Q x) (hx : x = .ok a) : Q a := by
  rw [hx] at h
  exact h

theorem Ensures.mono (h : Ensures P x) (hPQ : ∀ a, P a → Q a) : Ensures Q x := by
  cases x with
  | error _ => trivial
  | ok a => exact hPQ a h

variable {f : α → Except ε β}

theorem Ensures.bind {R : β → Prop} (h : Ensures Q x)
    (hf : ∀ a, Q a → Ensures R (f a)) : Ensures R (x >>= f) := by
  cases x with
  | error _ => trivial
  | ok a => exact hf a h

theorem bind_of_ok {a : α} (h : x = .ok a) : (x >>= f) = f a := by
  rw [h]
  rfl

theorem bind_of_error {e : ε} (h : x = .error e) : (x >>= f) = .error e := by
  rw [h]
  rfl

theorem exists_of_bind_eq_ok {b : β} (h : (x >>= f) = .ok b) : ∃ a, x = .ok a ∧ f a = .ok b := by
  cases x with
  | error _ => cases h
  | ok a => exact ⟨a, rfl, h⟩

theorem Ensures.map {R : β → Prop} {f : α → β} (h : Ensures (fun a => R (f a)) x) :
    Ensures R (x.map f) := by
  cases x with
  | error _ => trivial
  | ok a => exact h

theorem Ensures.ite {c : Prop} [Decidable c] {y : Except ε α} (hx : c → Ensures Q x)
    (hy : ¬ c → Ensures Q y) : Ensures Q (if c then x else y) := by
  split
  · exact hx ‹_›
  · exact hy ‹_›

end LibAudit

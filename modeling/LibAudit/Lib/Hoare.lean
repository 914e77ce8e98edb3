import Mathlib.Init

/-!
# Pre- and postconditions for programs with a state and errors

`Triple P m Q E`: run from a state in which `P` holds, `m` either returns a value and a state that
satisfy `Q`, or stops with an error and a state that satisfy `E`.  With `E` never true this is total
correctness; with `E` always true, errors are not looked at.

There is one rule for each way of putting programs together, and none of them looks into a program:
a proof about a program is a proof about its parts.
-/

namespace Hoare

variable {ε σ α β : Type}

/-- `m` leads from `P` to `Q`, or to `E` by an error. -/
def Triple (P : σ → Prop) (m : EStateM ε σ α) (Q : α → σ → Prop) (E : ε → σ → Prop) : Prop :=
  ∀ s, P s → match m s with
    | .ok a s' => Q a s'
    | .error e s' => E e s'

theorem get_apply (s : σ) : (EStateM.get : EStateM ε σ σ) s = .ok s s := rfl

theorem modifyGet_apply (f : σ → α × σ) (s : σ) :
    (EStateM.modifyGet f : EStateM ε σ α) s = .ok (f s).1 (f s).2 := rfl

variable {P P' : σ → Prop} {m : EStateM ε σ α} {Q Q' : α → σ → Prop} {E E' : ε → σ → Prop}

namespace Triple

theorem conseq (h : Triple P m Q E) (hP : ∀ s, P' s → P s) (hQ : ∀ a s, Q a s → Q' a s)
    (hE : ∀ e s, E e s → E' e s) : Triple P' m Q' E' := by
  intro s hs
  have := h s (hP s hs)
  grind

theorem pre (h : Triple P m Q E) (hP : ∀ s, P' s → P s) : Triple P' m Q E :=
  h.conseq hP (fun _ _ => id) fun _ _ => id

theorem post (h : Triple P m Q E) (hQ : ∀ a s, Q a s → Q' a s) : Triple P m Q' E :=
  h.conseq (fun _ => id) hQ fun _ _ => id

theorem err (h : Triple P m Q E) (hE : ∀ e s, E e s → E' e s) : Triple P m Q E' :=
  h.conseq (fun _ => id) (fun _ _ => id) hE

theorem weaken (h : Triple P m Q E) (hQ : ∀ a s, Q a s → Q' a s) (hE : ∀ e s, E e s → E' e s) :
    Triple P m Q' E' :=
  h.conseq (fun _ => id) hQ hE

theorem bind {f : α → EStateM ε σ β} {R : β → σ → Prop} (hm : Triple P m Q E)
    (hf : ∀ a, Triple (Q a) (f a) R E) : Triple P (m >>= f) R E := by
  intro s hs
  have := hm s hs
  show match EStateM.bind m f s with
    | .ok b s' => R b s'
    | .error e s' => E e s'
  rw [EStateM.bind]
  cases hms : m s with
  | ok a s' => rw [hms] at this; exact hf a s' this
  | error e s' => rw [hms] at this; exact this

theorem pure (a : α) (h : ∀ s, P s → Q a s) :
    Triple P (Pure.pure a : EStateM ε σ α) Q E := fun s hs => h s hs

theorem discard {R : σ → Prop} (h : Triple P m (fun _ => R) E) :
    Triple P (Functor.discard m : EStateM ε σ PUnit) (fun _ => R) E := by
  intro s hs
  have := h s hs
  have hmap : (Functor.discard m : EStateM ε σ PUnit) s = EStateM.map (fun _ => PUnit.unit) m s := rfl
  rw [hmap, EStateM.map]
  cases hm : m s with
  | ok a s' => rw [hm] at this; exact this
  | error e s' => rw [hm] at this; exact this

theorem throw (e : ε) (h : ∀ s, P s → E e s) :
    Triple P (MonadExcept.throw e : EStateM ε σ α) Q E := fun s hs => h s hs

theorem modify {f : σ → σ} {Q : PUnit → σ → Prop} (h : ∀ s, P s → Q ⟨⟩ (f s)) :
    Triple P (modify f : EStateM ε σ PUnit) Q E := fun s hs => h s hs

theorem ite {c : Prop} [Decidable c] {m' : EStateM ε σ α} (h : c → Triple P m Q E)
    (h' : ¬ c → Triple P m' Q E) : Triple P (if c then m else m') Q E := by
  split
  · rename_i hc
    exact h hc
  · rename_i hc
    exact h' hc

/-- What is known stays true when the state is changed. -/
theorem update {f : σ → σ} {g : PUnit → EStateM ε σ β} {R : β → σ → Prop}
    (hf : ∀ s, P s → P (f s)) (hg : ∀ u, Triple P (g u) R E) :
    Triple P (modifyThe σ f >>= g) R E := .bind (.modify hf) hg

end Triple

variable {f : σ → EStateM ε σ α}

namespace Triple

/-- The state that is read is the state that the rest starts from. -/
theorem get_bind (h : ∀ s, P s → Triple (· = s) (f s) Q E) :
    Triple P (MonadState.get >>= f) Q E := fun s hs => h s hs s rfl

theorem get_bind_eq {s : σ} (h : Triple (· = s) (f s) Q E) :
    Triple (· = s) (MonadState.get >>= f) Q E := .get_bind fun _ hs => hs ▸ h

/-- The state that is read satisfies what is known at that point. -/
theorem read (h : ∀ s, P s → Triple P (f s) Q E) : Triple P (MonadState.get >>= f) Q E :=
  .get_bind fun s hs => (h s hs).pre fun _ heq => heq ▸ hs

theorem set {s : σ} {Q : PUnit → σ → Prop} (h : Q ⟨⟩ s) :
    Triple P (MonadStateOf.set s : EStateM ε σ PUnit) Q E := fun _ _ => h

/-- A fact that does not depend on the state can be assumed once and for all. -/
theorem of_pure {c : Prop} (h : c → Triple P m Q E) : Triple (fun s => c ∧ P s) m Q E :=
  fun s hs => h hs.1 s hs.2

/-- What follows from the precondition and does not depend on the state can be assumed. -/
theorem assume {c : Prop} (hc : ∀ s, P s → c) (h : c → Triple P m Q E) : Triple P m Q E :=
  fun s hs => h (hc s hs) s hs

/-- From one state there is one result. -/
theorem result {s : σ} (h : Triple (· = s) m Q E) :
    Triple (· = s) m (fun a s' => m s = .ok a s' ∧ Q a s') E := by
  rintro s rfl
  have := h s rfl
  grind

/-- What a total triple says about a run. -/
theorem total (h : Triple P m Q fun _ _ => False) {s : σ} (hs : P s) :
    ∃ a s', m s = .ok a s' ∧ Q a s' := by
  have := h s hs
  grind

theorem of_ok (h : Triple P m Q E) {s s' : σ} {a : α} (hs : P s) (hm : m s = .ok a s') : Q a s' := by
  have := h s hs
  rw [hm] at this
  exact this

end Triple

end Hoare

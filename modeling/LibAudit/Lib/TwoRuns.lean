import Mathlib.Init

/-!
# Two runs side by side

`Alike R m m'`: run from two states that are related by `R`, the programs `m` and `m'` come to the same
end, with the same value or the same error, and again in related states.  If `R` says that the states
differ only in what an observer cannot see, the observer cannot tell the two runs apart.

There is one rule for each way of putting programs together.

`Both P m m' Q E` is the general form, where the relation changes on the way and the values need not be
the same.
-/

namespace Hoare

variable {ε σ α β : Type}

/-- From states related by `R`, `m` and `m'` come to the same end, in related states. -/
def Alike (R : σ → σ → Prop) (m m' : EStateM ε σ α) : Prop :=
  ∀ s s', R s s' → match m s, m' s' with
    | .ok a t, .ok a' t' => a = a' ∧ R t t'
    | .error e t, .error e' t' => e = e' ∧ R t t'
    | _, _ => False

/-- From states related by `P`, `m` and `m'` come to the same end: with values and in states related by
`Q`, or with the same error in states related by `E`. -/
def Both (P : σ → σ → Prop) (m m' : EStateM ε σ α) (Q : α → α → σ → σ → Prop) (E : σ → σ → Prop) :
    Prop :=
  ∀ s s', P s s' → match m s, m' s' with
    | .ok a t, .ok a' t' => Q a a' t t'
    | .error e t, .error e' t' => e = e' ∧ E t t'
    | _, _ => False

namespace Both

variable {P P' : σ → σ → Prop} {m m' n n' : EStateM ε σ α} {Q Q' : α → α → σ → σ → Prop}
  {E E' : σ → σ → Prop}

/-- How two runs from related states end. -/
theorem cases (h : Both P m m' Q E) {s s' : σ} (hs : P s s') :
    (∃ a a' t t', m s = .ok a t ∧ m' s' = .ok a' t' ∧ Q a a' t t') ∨
      (∃ e t t', m s = .error e t ∧ m' s' = .error e t' ∧ E t t') := by
  have := h s s' hs
  cases hm : m s with
  | ok a t =>
    grind
  | error e t =>
    grind

theorem conseq (h : Both P m m' Q E) (hP : ∀ s s', P' s s' → P s s')
    (hQ : ∀ a a' s s', Q a a' s s' → Q' a a' s s') (hE : ∀ s s', E s s' → E' s s') :
    Both P' m m' Q' E' := by
  intro s s' hs
  rcases h.cases (hP s s' hs) with ⟨a, a', t, t', hm, hm', ht⟩ | ⟨e, t, t', hm, hm', ht⟩
  · rw [hm, hm']
    exact hQ a a' t t' ht
  · rw [hm, hm']
    exact ⟨rfl, hE t t' ht⟩

theorem pre (h : Both P m m' Q E) (hP : ∀ s s', P' s s' → P s s') : Both P' m m' Q E :=
  h.conseq hP (fun _ _ _ _ => id) fun _ _ => id

theorem pure {a a' : α} (h : ∀ s s', P s s' → Q a a' s s') :
    Both P (Pure.pure a : EStateM ε σ α) (Pure.pure a') Q E := h

theorem throw (e : ε) (h : ∀ s s', P s s' → E s s') :
    Both P (MonadExcept.throw e : EStateM ε σ α) (MonadExcept.throw e) Q E :=
  fun s s' hs => ⟨rfl, h s s' hs⟩

theorem modify {f f' : σ → σ} {Q : PUnit → PUnit → σ → σ → Prop}
    (h : ∀ s s', P s s' → Q ⟨⟩ ⟨⟩ (f s) (f' s')) :
    Both P (modify f : EStateM ε σ PUnit) (modify f') Q E := h

theorem bind {f f' : α → EStateM ε σ β} {S : β → β → σ → σ → Prop} (hm : Both P m m' Q E)
    (hf : ∀ a a', Both (Q a a') (f a) (f' a') S E) : Both P (m >>= f) (m' >>= f') S E := by
  intro s s' hs
  show match EStateM.bind m f s, EStateM.bind m' f' s' with
    | .ok a t, .ok a' t' => S a a' t t'
    | .error e t, .error e' t' => e = e' ∧ E t t'
    | _, _ => False
  rw [EStateM.bind, EStateM.bind]
  rcases hm.cases hs with ⟨a, a', t, t', hms, hms', ht⟩ | ⟨e, t, t', hms, hms', ht⟩
  · rw [hms, hms']
    exact hf a a' t t' ht
  · rw [hms, hms']
    exact ⟨rfl, ht⟩

theorem read {f f' : σ → EStateM ε σ α}
    (h : ∀ s s', P s s' → Both (fun t t' => t = s ∧ t' = s') (f s) (f' s') Q E) :
    Both P (MonadState.get >>= f) (MonadState.get >>= f') Q E :=
  fun s s' hs => h s s' hs s s' ⟨rfl, rfl⟩

theorem ite {c : Prop} [Decidable c] (h : c → Both P m m' Q E) (h' : ¬ c → Both P n n' Q E) :
    Both P (if c then m else n) (if c then m' else n') Q E := by
  split
  · rename_i hc
    exact h hc
  · rename_i hc
    exact h' hc

/-- What each of the runs is known to end with. -/
theorem ends (h : Both P m m' Q E) {S S' : α → σ → Prop}
    (hS : ∀ s s' a t, P s s' → m s = .ok a t → S a t)
    (hS' : ∀ s s' a t, P s s' → m' s' = .ok a t → S' a t) :
    Both P m m' (fun a a' t t' => Q a a' t t' ∧ S a t ∧ S' a' t') E := by
  intro s s' hs
  rcases h.cases hs with ⟨a, a', t, t', hm, hm', ht⟩ | ⟨e, t, t', hm, hm', ht⟩
  · rw [hm, hm']
    exact ⟨ht, hS s s' a t hs hm, hS' s s' a' t' hs hm'⟩
  · rw [hm, hm']
    exact ⟨rfl, ht⟩

theorem alike {R : σ → σ → Prop} (h : Both R m m' (fun a a' s s' => a = a' ∧ R s s') R) :
    Alike R m m' := h

end Both

theorem Alike.both {R : σ → σ → Prop} {m m' : EStateM ε σ α} (h : Alike R m m') :
    Both R m m' (fun a a' s s' => a = a' ∧ R s s') R := h

namespace Alike

variable {R : σ → σ → Prop} {m m' n n' : EStateM ε σ α}

theorem pure (a : α) : Alike R (Pure.pure a : EStateM ε σ α) (Pure.pure a) := fun _ _ h => ⟨rfl, h⟩

theorem throw (e : ε) : Alike R (MonadExcept.throw e : EStateM ε σ α) (MonadExcept.throw e) :=
  fun _ _ h => ⟨rfl, h⟩

theorem modify {f f' : σ → σ} (h : ∀ s s', R s s' → R (f s) (f' s')) :
    Alike R (modify f : EStateM ε σ PUnit) (modify f') :=
  fun s s' hs => ⟨rfl, h s s' hs⟩

theorem bind {f f' : α → EStateM ε σ β} (hm : Alike R m m') (hf : ∀ a, Alike R (f a) (f' a)) :
    Alike R (m >>= f) (m' >>= f') := by
  refine Both.alike (hm.both.bind fun a a' => ?_)
  rintro s s' ⟨rfl, hs⟩
  exact (hf a).both s s' hs

theorem read {f f' : σ → EStateM ε σ α} (h : ∀ s s', R s s' → Alike R (f s) (f' s')) :
    Alike R (MonadState.get >>= f) (MonadState.get >>= f') :=
  fun s s' hs => h s s' hs s s' hs

theorem ite {c : Prop} [Decidable c] (h : Alike R m m') (h' : Alike R n n') :
    Alike R (if c then m else n) (if c then m' else n') := by
  split
  · exact h
  · exact h'

/-- Runs that end well end alike. -/
theorem of_ok (h : Alike R m m') {s s' t : σ} {a : α} (hs : R s s') (hm : m s = .ok a t) :
    ∃ t', m' s' = .ok a t' ∧ R t t' := by
  have := h s s' hs
  grind

theorem of_error (h : Alike R m m') {s s' t : σ} {e : ε} (hs : R s s') (hm : m s = .error e t) :
    ∃ t', m' s' = .error e t' ∧ R t t' := by
  have := h s s' hs
  grind

end Alike

end Hoare

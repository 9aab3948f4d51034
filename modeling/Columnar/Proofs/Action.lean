import Columnar.Action

/-!
# Running actions

What the combinators of actions do to a state, as equations that `simp` follows.

**Returning** (`Outcome.Returns`). An outcome returns when it is a result or an error. An abort does
not return: it ends the run in whatever state it finds. What is known of the result besides goes
from step to step with it (`Outcome.Meets`, `Meets.bind`), and so does what is known of the error if
there is one (`Outcome.Raises`, `Raises.bind`).

**Two runs** (`Outcome.Related`). Two outcomes are related when both are results that are, or both
are the same failure. Sequencing keeps this (`Related.bind`).

**Keeping** (`Action.Keeps`). An action keeps a property of states if it never leaves it, however
the action ends.

**Repeating** (`Action.nth`). An action may be run again and again on the state it leaves, whatever
came out of it. It keeps what one run keeps (`Keeps.after`).

**Agreeing** (`Action.Agrees`). Two actions agree when from related states they come to the same
outcome and to related states. Sequencing keeps this (`Agrees.bind`), and so does repeating
(`Agrees.nth`).
-/

namespace Columnar

namespace Outcome

variable {α β γ δ : Type}

/-- A result or an error, no abort. -/
def Returns : Outcome α → Prop
  | .error (.abort _) => False
  | _ => True

@[simp] theorem returns_ok (a : α) : Returns (.ok a) := trivial

@[simp] theorem returns_fail (e : Error) : Returns (fail e : Outcome α) := trivial

@[simp] theorem returns_error (e : Error) : Returns (.error (.error e) : Outcome α) := trivial

/-- Whether a failure is an abort does not depend on the type of the results. -/
theorem Returns.error {e : Failure} (h : Returns (.error e : Outcome α)) :
    Returns (.error e : Outcome β) := by
  cases e <;> exact h

theorem Returns.map {o : Outcome α} (h : o.Returns) (f : α → β) : (f <$> o).Returns := by
  cases o with
  | ok a => trivial
  | error e => exact h.error

theorem Returns.bind {o : Outcome α} {f : α → Outcome β} (h : o.Returns)
    (hf : ∀ a, (f a).Returns) : (o >>= f).Returns := by
  cases o with
  | ok a => exact hf a
  | error e => exact h.error

theorem returns_ofOption (e : Error) (o : Option α) : (ofOption e o).Returns := by
  cases o <;> trivial

/-- A result that has the property, or an error: no abort. -/
def Meets (P : α → Prop) : Outcome α → Prop
  | .ok a => P a
  | .error (.error _) => True
  | .error (.abort _) => False

section Meets

variable {P : α → Prop} {Q : β → Prop} {o : Outcome α}

theorem Meets.returns (h : o.Meets P) : o.Returns := by
  cases o with
  | ok a => trivial
  | error e => cases e <;> exact h

theorem Meets.of_eq_ok (h : o.Meets P) {a : α} (ho : o = .ok a) : P a := by
  rw [ho] at h
  exact h

theorem Meets.ok_or_fail (h : o.Meets P) : (∃ a, o = .ok a ∧ P a) ∨ ∃ e, o = fail e := by
  cases o with
  | ok a => exact .inl ⟨a, rfl, h⟩
  | error e =>
    cases e with
    | error e => exact .inr ⟨e, rfl⟩
    | abort d => cases h

theorem Meets.imp {P' : α → Prop} (h : o.Meets P) (himp : ∀ a, P a → P' a) : o.Meets P' := by
  cases o with
  | ok a => exact himp a h
  | error e => cases e <;> exact h

theorem Meets.bind {f : α → Outcome β} (h : o.Meets P) (hf : ∀ a, P a → (f a).Meets Q) :
    (o >>= f).Meets Q := by
  cases o with
  | ok a => exact hf a h
  | error e => cases e <;> exact h

theorem meets_guard {c : Prop} [Decidable c] {e : Error} (h : ¬ c → o.Meets P) :
    (if c then fail e else o).Meets P := by
  by_cases hc : c
  · rw [if_pos hc]
    trivial
  · rw [if_neg hc]
    exact h hc

theorem Meets.mapError (h : o.Meets P) (f : Error → Error) : (o.mapError f).Meets P := by
  cases o with
  | ok a => exact h
  | error e => cases e <;> exact h

theorem Meets.returns_bind {f : α → Outcome β} (h : o.Meets P) (hf : ∀ a, P a → (f a).Returns) :
    (o >>= f).Returns := by
  cases o with
  | ok a => exact hf a h
  | error e => exact h.returns.error

theorem Returns.meets_error {e : Failure} (h : Returns (.error e : Outcome α)) :
    Meets Q (.error e) := by
  cases e <;> exact h

theorem Returns.meets (h : o.Returns) : o.Meets fun _ => True := by
  cases o with
  | ok a => trivial
  | error e => cases e <;> exact h

end Meets

theorem ofOption_eq_ok {e : Error} {o : Option α} {a : α} :
    ofOption e o = .ok a ↔ o = some a := by
  cases o <;> simp [ofOption, fail]

/-- If the outcome is an error, it has the property. -/
def Raises (P : Error → Prop) : Outcome α → Prop
  | .error (.error e) => P e
  | _ => True

section Raises

variable {P : Error → Prop} {o : Outcome α}

theorem Raises.of_eq_fail (h : o.Raises P) {e : Error} (ho : o = fail e) : P e := by
  rw [ho] at h
  exact h

theorem Raises.bind {f : α → Outcome β} (h : o.Raises P) (hf : ∀ a, (f a).Raises P) :
    (o >>= f).Raises P := by
  cases o with
  | ok a => exact hf a
  | error e => cases e <;> exact h

theorem raises_guard {c : Prop} [Decidable c] {e : Error} (he : P e) (h : o.Raises P) :
    (if c then fail e else o).Raises P := by
  by_cases hc : c
  · rw [if_pos hc]
    exact he
  · rw [if_neg hc]
    exact h

theorem raises_ofOption {e : Error} (he : P e) (o : Option α) : (ofOption e o).Raises P := by
  cases o with
  | none => exact he
  | some a => trivial

theorem raises_ite_abort {c : Prop} [Decidable c] (a : α) (d : Abort) :
    (if c then .ok a else abort d : Outcome α).Raises P := by
  by_cases hc : c
  · rw [if_pos hc]
    trivial
  · rw [if_neg hc]
    trivial

theorem raises_mapError {f : Error → Error} (h : ∀ e, P (f e)) : (o.mapError f).Raises P := by
  cases o with
  | ok a => trivial
  | error e =>
    cases e with
    | error e => exact h e
    | abort d => trivial

theorem raises_ofCount (n : Nat) : (ofCount n).Raises P := raises_ite_abort n _

theorem raises_ofLength (n : Nat) : (ofLength n).Raises P := raises_ite_abort n _

end Raises

/-- Related results, or the same failure. -/
inductive Related (R : α → β → Prop) : Outcome α → Outcome β → Prop
  | ok {a : α} {b : β} (h : R a b) : Related R (.ok a) (.ok b)
  | error (e : Failure) : Related R (.error e) (.error e)

theorem related_refl {R : α → α → Prop} (hR : ∀ a, R a a) (o : Outcome α) : Related R o o := by
  cases o with
  | ok a => exact .ok (hR a)
  | error e => exact .error e

theorem Related.bind {R : α → β → Prop} {S : γ → δ → Prop} {o : Outcome α} {o' : Outcome β}
    {f : α → Outcome γ} {g : β → Outcome δ} (h : Related R o o')
    (hf : ∀ {a b}, R a b → Related S (f a) (g b)) : Related S (o >>= f) (o' >>= g) := by
  cases h with
  | ok h => exact hf h
  | error e => exact .error e

theorem related_same_bind {S : γ → δ → Prop} (o : Outcome α) {f : α → Outcome γ}
    {g : α → Outcome δ} (hf : ∀ a, Related S (f a) (g a)) : Related S (o >>= f) (o >>= g) := by
  cases o with
  | ok a => exact hf a
  | error e => exact .error e

@[simp] theorem isOk_ok (a : α) : Except.isOk (.ok a : Outcome α) = true := rfl

@[simp] theorem isOk_error (e : Failure) : Except.isOk (.error e : Outcome α) = false := rfl

@[simp] theorem ok_bind (a : α) (f : α → Outcome β) : (Except.ok a >>= f) = f a := rfl

@[simp] theorem map_ok (f : α → β) (a : α) : (f <$> (.ok a : Outcome α)) = .ok (f a) := rfl

@[simp] theorem fail_bind (e : Error) (f : α → Outcome β) : (fail e >>= f) = fail e := rfl

end Outcome

namespace Action

variable {σ τ α β : Type}

@[simp] theorem liftM_apply (o : Outcome α) (s : σ) : (liftM o : Action σ α) s = (o, s) := rfl

@[simp] theorem fail_apply (e : Error) (s : σ) :
    (fail e : Action σ α) s = (Outcome.fail e, s) := rfl

@[simp] theorem on_apply (part : τ → σ) (update : σ → τ → τ) (m : Action σ α) (t : τ) :
    m.on part update t = ((m (part t)).1, update (m (part t)).2 t) := rfl

@[simp] theorem attempt_apply (m : Action σ α) (s : σ) :
    m.attempt s = (.ok (m s).1, (m s).2) := rfl

@[simp] theorem quietly_apply (m : Action σ Unit) (s : σ) :
    m.quietly s = ((m s).1.quiet, (m s).2) := rfl

@[simp] theorem mapError_apply (f : Error → Error) (m : Action σ α) (s : σ) :
    m.mapError f s = ((m s).1.mapError f, (m s).2) := rfl

theorem map_apply (f : α → β) (m : Action σ α) (s : σ) :
    (f <$> m) s = (f <$> (m s).1, (m s).2) := by
  show (m >>= fun a => pure (f a)) s = _
  rw [bind_apply]
  rcases m s with ⟨_ | _, _⟩ <;> rfl

/-- A sequence that succeeds does so in both parts. -/
theorem bind_eq_ok {m : Action σ α} {f : α → Action σ β} {s s' : σ} {b : β}
    (h : (m >>= f) s = (.ok b, s')) : ∃ a s₁, m s = (.ok a, s₁) ∧ f a s₁ = (.ok b, s') := by
  rw [bind_apply] at h
  rcases hm : m s with ⟨e | a, s₁⟩
  · rw [hm] at h
    cases h
  · rw [hm] at h
    exact ⟨a, s₁, rfl, h⟩

theorem liftM_eq_ok {o : Outcome α} {s s' : σ} {a : α}
    (h : (liftM o : Action σ α) s = (.ok a, s')) : o = .ok a ∧ s' = s := by
  rw [liftM_apply] at h
  cases h
  exact ⟨rfl, rfl⟩

/-- The action returns in every state. -/
def Returns (m : Action σ α) : Prop := ∀ s, (m s).1.Returns

theorem returns_pure (a : α) : (pure a : Action σ α).Returns := fun _ => trivial

theorem Returns.bind {m : Action σ α} {f : α → Action σ β} (hm : m.Returns)
    (hf : ∀ a, (f a).Returns) : (m >>= f).Returns := by
  intro s
  have hs := hm s
  rw [bind_apply]
  rcases hrun : m s with ⟨e | a, s'⟩
  · rw [hrun] at hs
    exact hs.error
  · exact hf a s'

theorem Returns.map {m : Action σ α} (hm : m.Returns) (f : α → β) : (f <$> m).Returns := by
  intro s
  rw [map_apply]
  exact (hm s).map f

/-- Where the property holds it holds afterwards, whatever the outcome. -/
def Keeps (P : σ → Prop) (m : Action σ α) : Prop := ∀ s, P s → P (m s).2

variable {P : σ → Prop}

theorem Keeps.bind {m : Action σ α} {f : α → Action σ β} (hm : m.Keeps P)
    (hf : ∀ a, (f a).Keeps P) : (m >>= f).Keeps P := by
  intro s hs
  have hs' := hm s hs
  rw [bind_apply]
  rcases hrun : m s with ⟨e | a, s'⟩
  · rw [hrun] at hs'
    exact hs'
  · rw [hrun] at hs'
    exact hf a s' hs'

theorem Keeps.map {m : Action σ α} (hm : m.Keeps P) (f : α → β) : (f <$> m).Keeps P := by
  intro s hs
  rw [map_apply]
  exact hm s hs

theorem keeps_liftM (o : Outcome α) : (liftM o : Action σ α).Keeps P := fun _ hs => hs

/-- An action that begins with a look at the state. -/
theorem keeps_get_bind {f : σ → Action σ α} (h : ∀ s, P s → P (f s s).2) :
    (get >>= f).Keeps P := h

theorem Keeps.attempt {m : Action σ α} (hm : m.Keeps P) : m.attempt.Keeps P := hm

theorem Keeps.on {Q : τ → Prop} {part : τ → σ} {update : σ → τ → τ} {m : Action σ α}
    (hm : m.Keeps P) (hpart : ∀ t, Q t → P (part t)) (hupdate : ∀ s t, P s → Q (update s t)) :
    (m.on part update).Keeps Q := fun t ht => hupdate _ t (hm _ (hpart t ht))

/-- The state after `n` runs of the action, whatever comes out of them. -/
def after (m : Action σ α) : Nat → σ → σ
  | 0, s => s
  | n + 1, s => m.after n (m s).2

/-- What comes out of the action after `n` runs of it. -/
def nth (m : Action σ α) (n : Nat) (s : σ) : Outcome α := (m (m.after n s)).1

theorem nth_zero {m : Action σ α} {s s' : σ} {o : Outcome α} (h : m s = (o, s')) :
    m.nth 0 s = o := by
  rw [nth, after, h]

theorem nth_succ {m : Action σ α} {s s' : σ} {o : Outcome α} (h : m s = (o, s')) (n : Nat) :
    m.nth (n + 1) s = m.nth n s' := by
  rw [nth, after, h, nth]

/-- An action that leaves the state as it is always has the same outcome. -/
theorem nth_of_fixed {m : Action σ α} {s : σ} {o : Outcome α} (h : m s = (o, s)) (n : Nat) :
    m.nth n s = o := by
  induction n with
  | zero => exact nth_zero h
  | succ n ih => rw [nth_succ h, ih]

theorem Keeps.after {m : Action σ α} (hm : m.Keeps P) (n : Nat) {s : σ} (hs : P s) :
    P (m.after n s) := by
  induction n generalizing s with
  | zero => exact hs
  | succ n ih => exact ih (hm s hs)

theorem after_add (m : Action σ α) (k n : Nat) (s : σ) :
    m.after (k + n) s = m.after n (m.after k s) := by
  induction k generalizing s with
  | zero => rw [Nat.zero_add, after]
  | succ k ih => rw [Nat.succ_add, after, ih, after]

/-! ## Agreement -/

/-- From related states the actions come to the same outcome and to related states. -/
def Agrees (R : σ → τ → Prop) (m : Action σ α) (m' : Action τ α) : Prop :=
  ∀ s t, R s t → (m s).1 = (m' t).1 ∧ R (m s).2 (m' t).2

section Agrees

variable {R : σ → τ → Prop} {m : Action σ α} {m' : Action τ α}

theorem agrees_liftM (o : Outcome α) :
    Agrees R (liftM o : Action σ α) (liftM o : Action τ α) := fun _ _ h => ⟨rfl, h⟩

theorem agrees_set {s : σ} {t : τ} (h : R s t) : Agrees R (set s) (set t) := fun _ _ _ => ⟨rfl, h⟩

theorem agrees_modify {f : σ → σ} {g : τ → τ} (h : ∀ s t, R s t → R (f s) (g t)) :
    Agrees R (modify f) (modify g) := fun s t hst => ⟨rfl, h s t hst⟩

theorem Agrees.bind (hm : Agrees R m m') {f : α → Action σ β} {g : α → Action τ β}
    (hf : ∀ a, Agrees R (f a) (g a)) : Agrees R (m >>= f) (m' >>= g) := by
  intro s t hst
  obtain ⟨ho, hafter⟩ := hm s t hst
  rw [bind_apply, bind_apply]
  rcases hs : m s with ⟨o, s'⟩
  rcases ht : m' t with ⟨o', t'⟩
  rw [hs, ht] at ho hafter
  subst ho
  cases o with
  | ok a => exact hf a s' t' hafter
  | error e => exact ⟨rfl, hafter⟩

theorem Agrees.on {σ' τ' : Type} {Q : σ' → τ' → Prop} {part : σ' → σ} {part' : τ' → τ}
    {update : σ → σ' → σ'} {update' : τ → τ' → τ'} (hm : Agrees R m m')
    (hpart : ∀ s t, Q s t → R (part s) (part' t))
    (hupdate : ∀ s t s' t', Q s t → R s' t' → Q (update s' s) (update' t' t)) :
    Agrees Q (m.on part update) (m'.on part' update') := by
  intro s t hst
  obtain ⟨ho, hafter⟩ := hm _ _ (hpart s t hst)
  exact ⟨ho, hupdate s t _ _ hst hafter⟩

theorem Agrees.after (hm : Agrees R m m') (n : Nat) {s : σ} {t : τ} (h : R s t) :
    R (m.after n s) (m'.after n t) := by
  induction n generalizing s t with
  | zero => exact h
  | succ n ih => exact ih (hm s t h).2

theorem Agrees.nth (hm : Agrees R m m') (n : Nat) {s : σ} {t : τ} (h : R s t) :
    m.nth n s = m'.nth n t := (hm _ _ (hm.after n h)).1

end Agrees

end Action

end Columnar

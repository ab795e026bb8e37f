import Mathlib.Tactic.Common

/-!
# What a computation can return

The passes over a grid are written for every monad, so what they return is described for every
lawful monad as well. `Ensures p x` says that every value which `x` can return satisfies `p`:
continuations that agree on `p` cannot be told apart behind `x`. `Succeeds P x` says in addition
that the value is never a failure.

* `Ensures.bind` follows a computation step by step;
* `Ensures.liftM` begins with a value that there may not be: a computation that has none goes on for
  ever, and what would follow does not matter;
* `Ensures.of_eq_some` reads the fact off a computation on a state that may break off, and
  `Ensures.of_stateM` off one that always returns.
-/

namespace TimingAudit

variable {m : Type → Type} [Monad m] {α β ε : Type}

/-- Every value that `x` can return satisfies `p`. -/
def Ensures (p : α → Prop) (x : m α) : Prop :=
  ∀ (β : Type) (f f' : α → m β), (∀ a, p a → f a = f' a) → x >>= f = x >>= f'

/-- `x` never returns a failure, and every value that it can return satisfies `P`. -/
def Succeeds (P : α → Prop) (x : m (Except ε α)) : Prop :=
  Ensures (fun r => ∃ a, r = .ok a ∧ P a) x

/-! ## Following a computation -/

/-- A weaker statement about the value holds as well. -/
theorem Ensures.imp {p q : α → Prop} {x : m α} (h : Ensures p x) (hpq : ∀ a, p a → q a) :
    Ensures q x := by
  intro β f f' hff'
  exact h β f f' fun a ha => hff' a (hpq a ha)

/-- Nothing is known of a computation that is not looked into. -/
theorem ensures_true (x : m α) : Ensures (fun _ => True) x := by
  intro β f f' hff'
  congr 1
  funext a
  exact hff' a trivial

/-- A value that there is, where there might have been none. -/
theorem liftM_some [MonadLiftT Option m] [LawfulMonadLiftT Option m] (a : α) :
    (liftM (some a) : m α) = pure a :=
  liftM_pure a

section Lawful

variable [LawfulMonad m]

/-- A value that is returned at once. -/
theorem Ensures.pure {p : α → Prop} {a : α} (h : p a) : Ensures p (pure a : m α) := by
  intro β f f' hff'
  rw [pure_bind, pure_bind, hff' a h]

/-- One computation after another: what the first ensures may be used for the second. -/
theorem Ensures.bind {p : α → Prop} {q : β → Prop} {x : m α} {f : α → m β}
    (hx : Ensures p x) (hf : ∀ a, p a → Ensures q (f a)) : Ensures q (x >>= f) := by
  intro γ k k' hkk'
  rw [bind_assoc, bind_assoc]
  exact hx γ _ _ fun a ha => hf a ha γ k k' hkk'

/-- A value that is worked on after it was returned. -/
theorem Ensures.map {p : α → Prop} {q : β → Prop} {x : m α} {f : α → β} (hx : Ensures p x)
    (hf : ∀ a, p a → q (f a)) : Ensures q (f <$> x) := by
  rw [map_eq_pure_bind]
  exact hx.bind fun a ha => Ensures.pure (hf a ha)

/-- A success that is returned at once. -/
theorem Succeeds.pure {P : α → Prop} {a : α} (h : P a) :
    Succeeds P (pure (.ok a) : m (Except ε α)) :=
  Ensures.pure ⟨a, rfl, h⟩

section Lift

variable [MonadLiftT Option m] [LawfulMonadLiftT Option m]

/-- Nothing follows where there is no value. -/
theorem liftM_none_bind (f : α → m β) :
    (liftM (none : Option α) : m α) >>= f = liftM (none : Option β) := by
  -- No value of any type is no value of the empty type, behind which all continuations agree.
  have hempty : ∀ γ : Type, (liftM (none : Option γ) : m γ) =
      (liftM (none : Option Empty) : m Empty) >>= fun e => nomatch e := by
    intro γ
    have hbind : (none : Option γ) = (none : Option Empty) >>= fun e => nomatch e := rfl
    rw [hbind, liftM_bind]
    congr 1
    funext e
    cases e
  rw [hempty α, hempty β, bind_assoc]
  congr 1
  funext e
  cases e

/-- A value that there may not be. -/
theorem Ensures.liftM {p : α → Prop} {x : Option α} (h : ∀ a, x = some a → p a) :
    Ensures p (liftM x : m α) := by
  cases x with
  | none =>
      intro γ f f' _
      rw [liftM_none_bind, liftM_none_bind]
  | some a =>
      rw [liftM_some]
      exact Ensures.pure (h a rfl)

end Lift

end Lawful

/-! ## Computations on a state -/

/-- A value that a computation has returned is one that it can return. -/
theorem Ensures.of_eq_some {σ : Type} {p : α → Prop} {x : StateT σ Option α} (h : Ensures p x)
    {s s' : σ} {a : α} (hx : x s = some (a, s')) : p a := by
  -- Tell `p a` and `True` apart behind `x`.
  have hprop := congrFun (h Prop (fun a => Pure.pure (p a)) (fun _ => Pure.pure True) fun a ha => by
    rw [eq_true ha]) s
  have hleft : (x >>= fun a => Pure.pure (p a)) s = some (p a, s') := by
    show (x s).bind _ = _
    rw [hx]
    rfl
  have hright : (x >>= fun _ => Pure.pure True) s = some (True, s') := by
    show (x s).bind _ = _
    rw [hx]
    rfl
  rw [hleft, hright, Option.some.injEq, Prod.mk.injEq] at hprop
  exact of_eq_true hprop.1

/-- What a computation on a state returns, if it does, is all that it can return. -/
theorem Ensures.of_forall_eq_some {σ : Type} {p : α → Prop} {x : StateT σ Option α}
    (h : ∀ s a s', x s = some (a, s') → p a) : Ensures p x := by
  intro β f f' hff'
  funext s
  show (x s).bind _ = (x s).bind _
  refine Option.bind_congr fun r hr => ?_
  show f r.1 r.2 = f' r.1 r.2
  rw [hff' _ (h s _ _ hr)]

/-- A computation on a state that always returns returns a value that it can return. -/
theorem Ensures.of_stateM {σ : Type} {p : α → Prop} {x : StateM σ α} (h : Ensures p x) (s : σ) :
    p (x s).1 := by
  have hprop := congrFun (h Prop (fun a => Pure.pure (p a)) (fun _ => Pure.pure True) fun a ha => by
    rw [eq_true ha]) s
  exact of_eq_true (congrArg Prod.fst hprop)

/-- What a computation on a state returns in every state is all that it can return. -/
theorem Ensures.of_forall {σ : Type} {p : α → Prop} {x : StateM σ α} (h : ∀ s, p (x s).1) :
    Ensures p x := by
  intro β f f' hff'
  funext s
  show f (x s).1 (x s).2 = f' (x s).1 (x s).2
  rw [hff' _ (h s)]

/-- A value that is worked on after a computation on a state has returned it. -/
theorem stateT_map {σ : Type} (f : α → β) (x : StateT σ Option α) (s : σ) :
    (f <$> x) s = (x s).map fun r => (f r.1, r.2) := by
  rw [Option.map_eq_bind]
  rfl

/-- What was returned after a value was worked on comes from a value that was returned. -/
theorem stateT_map_eq_some_iff {σ : Type} {f : α → β} {x : StateT σ Option α} {s s' : σ} {b : β} :
    (f <$> x) s = some (b, s') ↔ ∃ a, x s = some (a, s') ∧ f a = b := by
  simp [stateT_map]

/-- One computation on a state after another. -/
theorem stateM_bind {σ : Type} (x : StateM σ α) (f : α → StateM σ β) (s : σ) :
    (x >>= f) s = f (x s).1 (x s).2 := rfl

/-- A value that is worked on after a computation on a state that always returns. -/
theorem stateM_map {σ : Type} (f : α → β) (x : StateM σ α) (s : σ) :
    (f <$> x) s = (f (x s).1, (x s).2) := rfl

end TimingAudit

/-
  Runs that are compared.

  Two computations that start in related states go in step (`InStep`): they end in
  related states with the same result, or with errors that count as the same.  The
  second may also be allowed to end early, with certain errors (`Tolerance`).

  * each way to compose computations keeps in step what is in step, from one relation
    between the states to another (`InStepTo`);
  * `InStepTo.descend` and `InStepTo.declaring`: so do those that change the scope, if
    related states are always in the same scope (`SameScope`).
-/
import GraphWire.Proofs.Runs

namespace GraphWire

variable {σ τ α β : Type}

/-- How far two runs may differ in their errors. -/
structure Tolerance where
  /-- The errors that count as the same. -/
  same : Error → Error → Prop
  /-- The errors with which the second run may end wherever the first is. -/
  early : Error → Prop

/-- No two errors count as the same and no run ends early. -/
def Tolerance.strict : Tolerance where
  same := Eq
  early _ := False

/-- Two runs that end alike: in related states with the same result, or with errors
    that count as the same, unless the second ends early. -/
inductive EndsAlike (T : Tolerance) (S : α → σ → τ → Prop) :
    (r : EStateM.Result Error σ α) → (r' : EStateM.Result Error τ α) → Prop where
  | ok (a : α) {s : σ} {t : τ} (h : S a s t) : EndsAlike T S (.ok a s) (.ok a t)
  | error {e e' : Error} {s : σ} {t : τ} (h : T.same e e') :
      EndsAlike T S (.error e s) (.error e' t)
  | early {r : EStateM.Result Error σ α} {e : Error} {t : τ} (h : T.early e) :
      EndsAlike T S r (.error e t)

/-- Whether two computations that start in states related in one way end alike, in
    states that their result relates in another. -/
def InStepTo (T : Tolerance) (R : σ → τ → Prop) (S : α → σ → τ → Prop) (x : EStateM Error σ α)
    (y : EStateM Error τ α) : Prop :=
  ∀ s t, R s t → EndsAlike T S (x s) (y t)

/-- Whether two computations that start in related states end alike. -/
abbrev InStep (T : Tolerance) (R : σ → τ → Prop) (x : EStateM Error σ α)
    (y : EStateM Error τ α) : Prop :=
  InStepTo T R (fun _ => R) x y

/-- Whether related states are always in the same scope, and stay related when it is
    changed. -/
structure SameScope [Scoped σ] [Scoped τ] (R : σ → τ → Prop) : Prop where
  scope : ∀ s t, R s t → (Scoped.scope s : Scope) = Scoped.scope t
  change : ∀ (f : Scope → Scope) s t, R s t → R (inScope f s) (inScope f t)

namespace InStepTo

variable {T : Tolerance} {R R' : σ → τ → Prop} {S S' : α → σ → τ → Prop}
  {Q : β → σ → τ → Prop} {x : EStateM Error σ α} {y : EStateM Error τ α}

theorem pure_of (a : α) (h : ∀ s t, R s t → S a s t) : InStepTo T R S (pure a) (pure a) :=
  fun s t hst => .ok a (h s t hst)

protected theorem throw {e : Error} (he : T.same e e) :
    InStepTo T R S (throw e : EStateM Error σ α) (throw e : EStateM Error τ α) :=
  fun _ _ _ => .error he

protected theorem modify {f : σ → σ} {g : τ → τ} {S : PUnit → σ → τ → Prop}
    (h : ∀ s t, R s t → S () (f s) (g t)) :
    InStepTo T R S (modify f : EStateM Error σ PUnit) (modify g) :=
  fun s t hst => .ok () (h s t hst)

protected theorem bind {f : α → EStateM Error σ β} {g : α → EStateM Error τ β}
    (hx : InStepTo T R S x y) (hf : ∀ a, InStepTo T (S a) Q (f a) (g a)) :
    InStepTo T R Q (x >>= f) (y >>= g) := by
  intro s t hst
  have hxy := hx s t hst
  show EndsAlike T Q (EStateM.bind x f s) (EStateM.bind y g t)
  unfold EStateM.bind
  generalize x s = r, y t = r' at hxy ⊢
  cases hxy with
  | ok a hst₁ => exact hf a _ _ hst₁
  | error he => exact .error he
  | early he => exact .early he

/-- What goes on with the result of an attempt may count on it. -/
protected theorem attempt_bind {r : Except Error α} {f : α → EStateM Error σ β}
    {g : α → EStateM Error τ β} (hr : ∀ e, r = .error e → T.same e e)
    (hf : ∀ a, r = .ok a → InStepTo T R Q (f a) (g a)) :
    InStepTo T R Q (attempt r >>= f) (attempt r >>= g) := by
  cases r with
  | ok a => exact hf a rfl
  | error e => exact fun s t hst => .error (hr e rfl)

/-- What changes the state at the end, however it ends, changes both alike. -/
protected theorem leaving {f : σ → σ} {g : τ → τ} (h : ∀ a s t, S a s t → S' a (f s) (g t))
    (hx : InStepTo T R S x y) : InStepTo T R S' (leaving f x) (leaving g y) := by
  intro s t hst
  have hxy := hx s t hst
  unfold GraphWire.leaving
  generalize x s = r, y t = r' at hxy ⊢
  cases hxy with
  | ok a hst₁ => exact .ok a (h _ _ _ hst₁)
  | error he => exact .error he
  | early he => exact .early he

/-- Less may be said of the states in the end. -/
theorem post (hx : InStepTo T R S x y) (h : ∀ a s t, S a s t → S' a s t) :
    InStepTo T R S' x y := by
  intro s t hst
  have hxy := hx s t hst
  generalize x s = r, y t = r' at hxy ⊢
  cases hxy with
  | ok a hst₁ => exact .ok a (h _ _ _ hst₁)
  | error he => exact .error he
  | early he => exact .early he

/-- More tolerance does no harm. -/
theorem mono {T' : Tolerance} (hsame : ∀ e e', T.same e e' → T'.same e e')
    (hearly : ∀ e, T.early e → T'.early e) (hx : InStepTo T R S x y) : InStepTo T' R S x y := by
  intro s t hst
  have hxy := hx s t hst
  generalize x s = r, y t = r' at hxy ⊢
  cases hxy with
  | ok a hst₁ => exact .ok a hst₁
  | error he => exact .error (hsame _ _ he)
  | early he => exact .early (hearly _ he)

/-- What goes on depends on what the related states have in common. -/
protected theorem get_bind {f : σ → EStateM Error σ β} {g : τ → EStateM Error τ β}
    (h : ∀ s t, R s t → InStepTo T R Q (f s) (g t)) : InStepTo T R Q (get >>= f) (get >>= g) :=
  fun s t hst => h s t hst s t hst

/-! ## One relation -/

protected theorem pure (a : α) : InStep T R (pure a) (pure a) := pure_of a fun _ _ => id

protected theorem attempt {r : Except Error α} (hr : ∀ e, r = .error e → T.same e e) :
    InStep T R (attempt r) (attempt r) := by
  cases r with
  | ok a => exact .pure a
  | error e => exact .throw (hr e rfl)

protected theorem map (f : α → β) (hx : InStep T R x y) : InStep T R (f <$> x) (f <$> y) := by
  rw [map_eq_pure_bind, map_eq_pure_bind]
  exact hx.bind fun _ => .pure _

/-! ## The same states -/

protected theorem refl (x : EStateM Error σ α) : InStep .strict Eq x x := by
  rintro s _ rfl
  cases x s with
  | ok a s' => exact .ok a rfl
  | error e s' => exact .error rfl

/-- Nothing is tolerated that shows in the result. -/
theorem resultOf_eq {x y : EStateM Error σ α} (h : InStep .strict Eq x y) (s : σ) :
    resultOf x s = resultOf y s := by
  have hs := h s s rfl
  unfold resultOf
  generalize x s = r, y s = r' at hs ⊢
  cases hs with
  | ok a _ => rfl
  | error he => rw [show _ = _ from he]
  | early he => exact he.elim

/-! ## Scopes -/

section
variable [Scoped σ] [Scoped τ] (hR : SameScope R)
include hR

protected theorem tooDeep {limit : Nat}
    (hT : ∀ depth, T.same (.depthExceeded limit depth) (.depthExceeded limit depth)) :
    InStepTo T R S (tooDeep limit : EStateM Error σ α) (tooDeep limit : EStateM Error τ α) := by
  intro s t hst
  unfold GraphWire.tooDeep
  rw [hR.scope s t hst]
  exact .error (hT _)

variable (hS : ∀ a, SameScope (S a))
include hS

protected theorem descend {limit : Nat}
    (hT : ∀ depth, T.same (.depthExceeded limit depth) (.depthExceeded limit depth))
    (hx : InStepTo T R S x y) : InStepTo T R S (descend limit x) (descend limit y) := by
  have hdeeper : InStep T R (deeper limit : EStateM Error σ Unit)
      (deeper limit : EStateM Error τ Unit) := by
    refine .get_bind fun s t hst => ?_
    rw [hR.scope s t hst]
    split
    · exact .tooDeep hR hT
    · exact .modify (hR.change _)
  exact hdeeper.bind fun _ => .leaving (fun a => (hS a).change _) hx

protected theorem declaring {ty : Declared} (hx : InStepTo T R S x y) :
    InStepTo T R S (declaring ty x) (declaring ty y) := by
  have hpush : InStep T R (modify (pushFrame ty) : EStateM Error σ PUnit)
      (modify (pushFrame ty)) := .modify (hR.change _)
  refine .get_bind fun s t hst => ?_
  rw [hR.scope s t hst]
  exact hpush.bind fun _ => .leaving (fun a => (hS a).change _) hx

end

end InStepTo

end GraphWire

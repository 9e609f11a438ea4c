/-
  Runs of computations: how a composed computation ends.

  A computation that succeeds is taken apart into the parts that succeeded
  before (`bind_eq_ok`, `attempt_eq_ok`, `descend_eq_ok`, `declaring_eq_ok`, …),
  and put together again from them.  The scope of a state is changed by going
  deeper (`Scope.deeper`) and by declarations (`Scope.pushed`), and is seen
  through `Scoped` only.
-/
import GraphWire.Codec.Building
import GraphWire.Codec.Slot
import GraphWire.Generics.Scope

namespace GraphWire

variable {σ α β : Type}

section
variable {x : EStateM Error σ α} {s s' : σ}

theorem bind_eq_ok {f : α → EStateM Error σ β} {b : β} :
    (x >>= f) s = .ok b s' ↔ ∃ a s₁, x s = .ok a s₁ ∧ f a s₁ = .ok b s' := by
  show EStateM.bind x f s = _ ↔ _
  unfold EStateM.bind
  cases h : x s with
  | ok a s₁ =>
    constructor
    · exact fun hf => ⟨a, s₁, rfl, hf⟩
    · rintro ⟨a', s₂, h', hf⟩
      cases h'
      exact hf
  | error e s₁ => simp

theorem bind_eq_error {f : α → EStateM Error σ β} {e : Error} :
    (x >>= f) s = .error e s' ↔
      x s = .error e s' ∨ ∃ a s₁, x s = .ok a s₁ ∧ f a s₁ = .error e s' := by
  show EStateM.bind x f s = _ ↔ _
  unfold EStateM.bind
  cases h : x s with
  | ok a s₁ =>
    constructor
    · exact fun hf => Or.inr ⟨a, s₁, rfl, hf⟩
    · rintro (h' | ⟨a', s₂, h', hf⟩)
      · cases h'
      · cases h'
        exact hf
  | error e' s₁ => simp

theorem bind_of_ok {f : α → EStateM Error σ β} {a : α} {s₁ : σ} (h : x s = .ok a s₁) :
    (x >>= f) s = f a s₁ := by
  show EStateM.bind x f s = _
  simp only [EStateM.bind, h]

theorem map_eq_ok {f : α → β} {b : β} :
    (f <$> x) s = .ok b s' ↔ ∃ a, x s = .ok a s' ∧ f a = b := by
  show EStateM.map f x s = _ ↔ _
  unfold EStateM.map
  cases h : x s with
  | ok a s₁ =>
    constructor
    · rintro ⟨⟩
      exact ⟨a, rfl, rfl⟩
    · rintro ⟨a', h', rfl⟩
      cases h'
      rfl
  | error e s₁ => simp

theorem map_of_ok {f : α → β} {a : α} (h : x s = .ok a s') : (f <$> x) s = .ok (f a) s' := by
  show EStateM.map f x s = _
  simp only [EStateM.map, h]

theorem map_eq_error {f : α → β} {e : Error} :
    (f <$> x) s = .error e s' ↔ x s = .error e s' := by
  show EStateM.map f x s = _ ↔ _
  unfold EStateM.map
  cases x s <;> simp

@[simp] theorem pure_apply (a : α) (s : σ) : (pure a : EStateM Error σ α) s = .ok a s := rfl

@[simp] theorem throw_apply (e : Error) (s : σ) :
    (throw e : EStateM Error σ α) s = .error e s := rfl

theorem get_bind (f : σ → EStateM Error σ β) (s : σ) : (get >>= f) s = f s s := rfl

theorem modify_bind (g : σ → σ) (f : Unit → EStateM Error σ β) (s : σ) :
    (modify g >>= f) s = f () (g s) := rfl

@[simp] theorem attempt_ok (a : α) : (attempt (.ok a) : EStateM Error σ α) = pure a := rfl

@[simp] theorem attempt_error (e : Error) :
    (attempt (.error e) : EStateM Error σ α) = throw e := rfl

theorem attempt_eq_ok {y : Except Error α} {a : α} : attempt y s = .ok a s' ↔ y = .ok a ∧ s = s' := by
  cases y <;> simp

theorem leaving_eq_ok {change : σ → σ} {a : α} :
    leaving change x s = .ok a s' ↔ ∃ s₁, x s = .ok a s₁ ∧ s' = change s₁ := by
  unfold leaving
  cases h : x s with
  | ok a' s₁ => simp [eq_comm, and_assoc]
  | error e s₁ => simp

/-- A computation is run for one more element. -/
theorem mapM_concat_of_ok {f : β → EStateM Error σ α} {bs : List β} {b : β} {as : List α} {a : α}
    {s₁ s₂ : σ} (has : bs.mapM f s = .ok as s₁) (ha : f b s₁ = .ok a s₂) :
    (bs ++ [b]).mapM f s = .ok (as ++ [a]) s₂ := by
  rw [List.mapM_append, bind_of_ok has, List.mapM_cons, List.mapM_nil]
  exact bind_of_ok (bind_of_ok ha)

theorem resultOf_eq_ok {a : α} : resultOf x s = .ok a ↔ ∃ s', x s = .ok a s' := by
  unfold resultOf
  cases x s <;> simp

end

theorem completing_apply [Building σ] (x : EStateM Error σ ObjId) (s : σ) :
    completing x s = match x s with
      | .ok o s₁ =>
        .ok o (if Building.waiting s₁ = Building.waiting s then Building.bind o s₁ else s₁)
      | .error e s₁ => .error e s₁ := by
  unfold completing
  rw [get_bind]
  show EStateM.bind x _ s = _
  unfold EStateM.bind
  cases x s with
  | ok o s₁ =>
    dsimp only
    rw [get_bind]
    split <;> rfl
  | error e s₁ => rfl

/-- What is built is bound unless that was done on the way. -/
theorem completing_eq_ok [Building σ] {x : EStateM Error σ ObjId} {s s' : σ} {o : ObjId} :
    completing x s = .ok o s' ↔ ∃ s₁, x s = .ok o s₁ ∧
      s' = if Building.waiting s₁ = Building.waiting s then Building.bind o s₁ else s₁ := by
  rw [completing_apply]
  cases x s with
  | ok p s₁ =>
    constructor
    · rintro ⟨⟩
      exact ⟨s₁, rfl, rfl⟩
    · rintro ⟨s₂, ⟨⟩, rfl⟩
      rfl
  | error e s₁ => simp

theorem except_bind_eq_ok {x : Except Error α} {f : α → Except Error β} {b : β} :
    (x >>= f) = .ok b ↔ ∃ a, x = .ok a ∧ f a = .ok b := by
  cases x <;> simp [bind, Except.bind]

theorem except_bind_eq_error {x : Except Error α} {f : α → Except Error β} {e : Error} :
    (x >>= f) = .error e ↔ x = .error e ∨ ∃ a, x = .ok a ∧ f a = .error e := by
  cases x <;> simp [bind, Except.bind]

/-- Both sides are resolved, and the keys have the declared type that comes first. -/
theorem resolveSlots_eq_ok {r : Registry} {frames : Frames} {args : List Declared}
    {key value : SideSetup Serializer} {slots : Slot × Slot × Declared} :
    resolveSlots r frames args key value = .ok slots ↔
      Slot.resolve r frames args[0]? .key key = .ok slots.1 ∧
      Slot.resolve r frames args[1]? .value value = .ok slots.2.1 ∧
      slots.2.2 = args[0]?.getD .unknown := by
  unfold resolveSlots
  rw [except_bind_eq_ok]
  constructor
  · rintro ⟨keySlot, hk, h⟩
    obtain ⟨valueSlot, hv, h⟩ := except_bind_eq_ok.1 h
    cases h
    exact ⟨hk, hv, rfl⟩
  · rintro ⟨hk, hv, hkey⟩
    refine ⟨slots.1, hk, except_bind_eq_ok.2 ⟨slots.2.1, hv, ?_⟩⟩
    rw [← hkey]
    rfl

/-! ## Scopes -/

namespace Scope

/-- One level deeper. -/
def deeper (sc : Scope) : Scope := { sc with depth := sc.depth + 1 }

/-- One level less deep. -/
def shallower (sc : Scope) : Scope := { sc with depth := sc.depth - 1 }

/-- Under the frame of a declaration. -/
def pushed (sc : Scope) (ty : Declared) : Scope := { sc with frames := sc.frames.push ty sc.depth }

/-- Without the frames above a height. -/
def lowered (sc : Scope) (height : Nat) : Scope := { sc with frames := sc.frames.truncate height }

/-- Without the frame that was pushed for what runs here. -/
def popped (sc : Scope) : Scope := { sc with frames := sc.frames.pop sc.depth }

/-- The arguments that were declared for what runs here. -/
def args (sc : Scope) : List Declared := (sc.frames.next sc.depth).getD []

variable {sc : Scope}

theorem args_of_empty (hf : sc.frames = .empty) : sc.args = [] := by
  unfold args
  rw [hf]
  rfl

theorem popped_of_empty (hf : sc.frames = .empty) : sc.popped = sc := by
  obtain ⟨frames, depth⟩ := sc
  obtain rfl : frames = .empty := hf
  rfl

end Scope

section
variable [Scoped σ] {x : EStateM Error σ α} {s s' : σ}

theorem descend_apply (limit : Nat) (x : EStateM Error σ α) (s : σ) :
    descend limit x s =
      if limit < (Scoped.scope s).depth + 1 then tooDeep limit s
      else leaving (inScope Scope.shallower) x (inScope Scope.deeper s) := by
  show EStateM.bind (deeper limit) _ s = _
  have hd : deeper limit s =
      if limit < (Scoped.scope s).depth + 1 then tooDeep limit s
      else .ok () (inScope Scope.deeper s) := by
    unfold deeper
    rw [get_bind]
    split <;> rfl
  unfold EStateM.bind
  rw [hd]
  by_cases h : limit < (Scoped.scope s).depth + 1
  · rw [if_pos h, if_pos h]
    rfl
  · rw [if_neg h, if_neg h]
    rfl

theorem descend_eq_ok {limit : Nat} {a : α} :
    descend limit x s = .ok a s' ↔ (Scoped.scope s).depth < limit ∧
      ∃ s₁, x (inScope Scope.deeper s) = .ok a s₁ ∧ s' = inScope Scope.shallower s₁ := by
  rw [descend_apply]
  by_cases h : limit < (Scoped.scope s).depth + 1
  · have hn : ¬(Scoped.scope s).depth < limit := by omega
    simp [h, hn, tooDeep]
  · have hn : (Scoped.scope s).depth < limit := by omega
    rw [if_neg h, leaving_eq_ok]
    exact (and_iff_right hn).symm

theorem declaring_apply (ty : Declared) (x : EStateM Error σ α) (s : σ) :
    declaring ty x s = leaving (inScope (·.lowered (Scoped.scope s).frames.height)) x
      (inScope (·.pushed ty) s) := rfl

theorem declaring_eq_ok {ty : Declared} {a : α} :
    declaring ty x s = .ok a s' ↔
      ∃ s₁, x (inScope (·.pushed ty) s) = .ok a s₁ ∧
        s' = inScope (·.lowered (Scoped.scope s).frames.height) s₁ := by
  rw [declaring_apply, leaving_eq_ok]

end

end GraphWire

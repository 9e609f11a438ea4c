/-
  What comes about by asking.

  Of a registry an engine uses the classes and the serializers.  Classes change when types are
  registered and at no other time; that serializers are asked for changes the registry.  What
  takes from the registry only the one and the other is a dialogue for all engines with the same
  classes (`Engine.Asked`).

  * `Registry.SameClasses`, `Engine.Resembles`: what all these engines have in common;
    `Registry.Settled.sameClasses_of_perm`: it depends on what was registered only;
  * `Engine.Asking` says this of computations; `Engine.Asking.bind` and the like: each way to
    compose computations keeps it.
-/
import GraphWire.Engine.Operations
import GraphWire.Proofs.Dialogues

namespace GraphWire

variable {σ α β : Type}

/-! ## What does not change -/

namespace Registry

variable {r r' : Registry}

/-- Whether two registries have the same classes. -/
structure SameClasses (r r' : Registry) : Prop where
  classOf : r'.classOf = r.classOf
  classOfObject : r'.classOfObject = r.classOfObject
  classOfId : r'.classOfId = r.classOfId
  isFinal : r'.isFinal = r.isFinal

/-! Classes in terms of what is said. -/

theorem classOfObject_eq_elim (t : ObjectType) : r.classOfObject t =
    ((r.find? t).map (·.said)).elim (.error (.unregisteredObject t)) fun i => .ok i.1 := by
  unfold classOfObject
  cases r.find? t <;> rfl

theorem isFinal_eq_elim (t : ObjectType) : r.isFinal t =
    ((r.find? t).map (·.said)).elim false fun i => i.1.isFinal := by
  unfold isFinal
  cases r.find? t <;> rfl

theorem classOfId_eq_elim (id : Nat) : r.classOfId id =
    ((r.byId.map (·.said)).find? fun i => i.1.id == id).elim
      (.error (.unregisteredId id)) fun i => .ok i.1 := by
  have hfind : (r.byId.map (·.said)).find? (fun i => i.1.id == id) =
      (r.findId? id).map (·.said) := by
    rw [List.find?_map]
    rfl
  rw [hfind]
  unfold classOfId
  cases r.findId? id <;> rfl

/-- **Classes depend on what was registered**, not on the order. -/
theorem Settled.sameClasses_of_perm (h : r.Settled) (h' : r'.Settled)
    (hperm : (r.registrations.map (·.said)).Perm (r'.registrations.map (·.said))) :
    r.SameClasses r' := by
  have halike := h.alike_of_perm hperm
  have hids : (r.registrations.map (·.said)).Pairwise fun a b => a.1.id ≠ b.1.id :=
    List.pairwise_map.2 (List.pairwise_map.1 h.ids)
  refine ⟨funext halike.classOf, funext fun t => ?_, funext fun id => ?_, funext fun t => ?_⟩
  · rw [classOfObject_eq_elim, classOfObject_eq_elim, halike t]
  · rw [classOfId_eq_elim, classOfId_eq_elim, h.stage.tables, h'.stage.tables,
      find?_perm hperm hids id]
  · rw [isFinal_eq_elim, isFinal_eq_elim, halike t]

end Registry

namespace Engine

variable {e e' : Engine}

/-- Whether an engine has the configuration of another and the same classes. -/
structure Resembles (e e' : Engine) : Prop where
  config : e'.config = e.config
  classes : e.registry.SameClasses e'.registry

/-! ## Asking -/

/-- Whether something comes about in a dialogue, which is the same for all engines with the same
    classes. -/
def Asked (e : Engine) (f : Engine → α) : Prop :=
  ∃ d : Dialogue α, ∀ e', e.Resembles e' → f e' = d.result e'.registry.serializer

namespace Asked

variable {f g : Engine → α}

protected theorem pure (a : α) : e.Asked fun _ => a := ⟨.done a, fun _ _ => rfl⟩

theorem congr (hf : e.Asked f) (h : ∀ e', e.Resembles e' → g e' = f e') : e.Asked g := by
  obtain ⟨d, hd⟩ := hf
  exact ⟨d, fun e' he => (h e' he).trans (hd e' he)⟩

/-- What is the same for all these engines. -/
theorem same (h : ∀ e', e.Resembles e' → f e' = f e) : e.Asked f := (Asked.pure (f e)).congr h

theorem ask (t : ObjectType) : e.Asked fun e' => e'.registry.serializer t :=
  ⟨.ask t .done, fun _ _ => rfl⟩

theorem classOf (t : ObjectType) : e.Asked fun e' => e'.registry.classOf t :=
  .same fun e' he => by rw [he.classes.classOf]

theorem classOfObject (t : ObjectType) : e.Asked fun e' => e'.registry.classOfObject t :=
  .same fun e' he => by rw [he.classes.classOfObject]

protected theorem bind {k : Engine → α → β} (hf : e.Asked f) (hk : ∀ a, e.Asked fun e' => k e' a) :
    e.Asked fun e' => k e' (f e') := by
  obtain ⟨d, hd⟩ := hf
  choose next hnext using hk
  refine ⟨d.bind next, fun e' he => ?_⟩
  rw [Dialogue.result_bind, ← hd e' he]
  exact hnext _ e' he

protected theorem map (k : α → β) (hf : e.Asked f) : e.Asked fun e' => k (f e') :=
  hf.bind (k := fun _ => k) fun a => .pure (k a)

theorem except_bind {x : Engine → Except Error α} {y : Engine → α → Except Error β}
    (hx : e.Asked x) (hy : ∀ a, e.Asked fun e' => y e' a) : e.Asked fun e' => x e' >>= y e' :=
  hx.bind (k := fun e' r => r >>= y e') fun r => by
    cases r with
    | ok a => exact hy a
    | error err => exact .pure _

end Asked

/-- What is made of the end of a computation. -/
def ending (done : α → σ → β) (failed : Error → σ → β) : EStateM.Result Error σ α → β
  | .ok a s => done a s
  | .error err s => failed err s

/-- Whether a computation comes about so, wherever it starts. -/
def Asking (e : Engine) (x : Engine → EStateM Error σ α) : Prop := ∀ s, e.Asked fun e' => x e' s

namespace Asking

variable {x y : Engine → EStateM Error σ α}

theorem const (x : EStateM Error σ α) : e.Asking fun _ => x := fun s => .pure (x s)

theorem congr (hx : e.Asking x) (h : ∀ e', e.Resembles e' → y e' = x e') : e.Asking y :=
  fun s => (hx s).congr fun e' he => congrFun (h e' he) s

theorem same (h : ∀ e', e.Resembles e' → x e' = x e) : e.Asking x := (const (x e)).congr h

protected theorem attempt {r : Engine → Except Error α} (hr : e.Asked r) :
    e.Asking fun e' => (attempt (r e') : EStateM Error σ α) :=
  fun s => hr.map fun r => attempt r s

protected theorem bind {f : Engine → α → EStateM Error σ β} (hx : e.Asking x)
    (hf : ∀ a, e.Asking fun e' => f e' a) : e.Asking fun e' => x e' >>= f e' := by
  intro s
  have hend : ∀ r, e.Asked fun e' => ending (f e') .error r := fun r => by
    cases r with
    | ok a s₁ => exact hf a s₁
    | error err s₁ => exact .pure _
  refine ((hx s).bind hend).congr fun e' _ => ?_
  show EStateM.bind (x e') (f e') s = _
  unfold EStateM.bind
  cases x e' s <;> rfl

protected theorem map (f : α → β) (hx : e.Asking x) : e.Asking fun e' => f <$> x e' := by
  simp only [map_eq_pure_bind]
  exact hx.bind fun _ => .const _

protected theorem get_bind {f : Engine → σ → EStateM Error σ β}
    (hf : ∀ s, e.Asking fun e' => f e' s) : e.Asking fun e' => get >>= f e' :=
  fun s => hf s s

protected theorem ite {p : Engine → Bool} (hp : ∀ e', e.Resembles e' → p e' = p e)
    (hx : e.Asking x) (hy : e.Asking y) : e.Asking fun e' => if p e' then x e' else y e' := by
  cases hpe : p e with
  | true => exact hx.congr fun e' he => if_pos ((hp e' he).trans hpe)
  | false => exact hy.congr fun e' he => if_neg (by simp [(hp e' he).trans hpe])

protected theorem leaving (change : σ → σ) (hx : e.Asking x) :
    e.Asking fun e' => leaving change (x e') := by
  intro s
  refine ((hx s).map (ending (fun a s' => .ok a (change s'))
    fun err s' => .error err (change s'))).congr fun e' _ => ?_
  show GraphWire.leaving change (x e') s = _
  unfold GraphWire.leaving
  cases x e' s <;> rfl

protected theorem declaring [Scoped σ] (ty : Declared) (hx : e.Asking x) :
    e.Asking fun e' => declaring ty (x e') :=
  .get_bind fun _ => .bind (.const _) fun _ => .leaving _ hx

protected theorem descend [Scoped σ] {limit : Engine → Nat}
    (hlimit : ∀ e', e.Resembles e' → limit e' = limit e) (hx : e.Asking x) :
    e.Asking fun e' => descend (limit e') (x e') := by
  have hdescend : e.Asking fun e' => descend (limit e) (x e') :=
    .bind (.const _) fun _ => .leaving _ hx
  exact hdescend.congr fun e' he => by rw [hlimit e' he]

protected theorem completing [Building σ] {x : Engine → EStateM Error σ ObjId} (hx : e.Asking x) :
    e.Asking fun e' => completing (x e') :=
  .get_bind fun _ => hx.bind fun _ => .const _

end Asking

end Engine

end GraphWire

/-
  Runs in two scopes.

  Two runs may be at the same point in different scopes.  A family of relations says of the
  states of both what they have in common, for any two scopes (`Pairing`).  What both enter
  they leave again as they entered it, if no frame that is not their own is in sight there.

  * `Pairing.descend` and `Pairing.declaring`: the two ways in and out, where what runs inside
    may take the frame that was pushed for it (`Spent`);
  * `Scope.Serves`: between some scopes, both sides of all entries are encoded alike, and so
    they are in all that is entered from there.
-/
import GraphWire.Proofs.Balance
import GraphWire.Proofs.Comparing

namespace GraphWire

variable {σ τ α : Type}

/-! ## Pairs of scopes -/

/-- Relations between states in the one scope and states in the other, which say nothing of the
    scopes but which they are. -/
structure Pairing [Scoped σ] [Scoped τ] (P : Scope → Scope → σ → τ → Prop) : Prop where
  left : ∀ {sc sc' s t}, P sc sc' s t → (Scoped.scope s : Scope) = sc
  right : ∀ {sc sc' s t}, P sc sc' s t → (Scoped.scope t : Scope) = sc'
  change : ∀ {sc sc' s t} (f g : Scope → Scope), P sc sc' s t →
    P (f sc) (g sc') (inScope f s) (inScope g t)

/-- Whether two states are related in the scopes, or in what is left of both by what took the
    frames that were pushed for it. -/
def Spent (P : Scope → Scope → σ → τ → Prop) (sc sc' : Scope) (s : σ) (t : τ) : Prop :=
  P sc sc' s t ∨ P sc.spent sc'.spent s t

section
variable {P : Scope → Scope → σ → τ → Prop} {T : Tolerance} {sc sc' : Scope}
  {x : EStateM Error σ α} {y : EStateM Error τ α}

/-- What may take the frames pushed for it finds none in scopes that were entered. -/
theorem InStepTo.keeps (hx : InStepTo T (P sc sc') (fun _ => Spent P sc sc') x y)
    (hs : sc.Entered) (hs' : sc'.Entered) : InStep T (P sc sc') x y :=
  hx.post fun _ _ _ hst => hst.elim id fun hst => by rwa [hs.spent_eq, hs'.spent_eq] at hst

theorem InStepTo.spends (hx : InStep T (P sc sc') x y) :
    InStepTo T (P sc sc') (fun _ => Spent P sc sc') x y :=
  hx.post fun _ _ _ => Or.inl

namespace Pairing

variable [Scoped σ] [Scoped τ] (hP : Pairing P)
include hP

theorem tooDeep {S : α → σ → τ → Prop} {limit : Nat} (hT : ∀ err, T.same err err)
    (hdepth : sc'.depth = sc.depth) :
    InStepTo T (P sc sc') S (tooDeep limit : EStateM Error σ α) (tooDeep limit) := by
  intro s t hst
  unfold GraphWire.tooDeep
  rw [hP.left hst, hP.right hst, hdepth]
  exact .error (hT _)

/-- What runs one level deeper and pops there takes the frames pushed for it. -/
theorem descend {limit : Nat} (hT : ∀ err, T.same err err) (hdepth : sc'.depth = sc.depth)
    (hx : InStepTo T (P sc.deeper sc'.deeper) (fun _ s t => P sc.deeper sc'.deeper s t ∨
      P sc.deeper.popped sc'.deeper.popped s t) x y) :
    InStepTo T (P sc sc') (fun _ => Spent P sc sc') (descend limit x) (descend limit y) := by
  intro s t hst
  rw [descend_apply, descend_apply, hP.left hst, hP.right hst, hdepth]
  by_cases hlimit : limit < sc.depth + 1
  · rw [if_pos hlimit, if_pos hlimit]
    exact hP.tooDeep hT hdepth s t hst
  · rw [if_neg hlimit, if_neg hlimit]
    refine InStepTo.leaving (fun _ s t hst => ?_) hx _ _ (hP.change Scope.deeper _ hst)
    exact hst.imp (hP.change Scope.shallower Scope.shallower)
      (hP.change Scope.shallower Scope.shallower)

/-- What is declared leaves both scopes as they were. -/
theorem declaring (hs : sc.Entered) (hs' : sc'.Entered) {ty ty' : Declared}
    (hx : InStepTo T (P (sc.pushed ty) (sc'.pushed ty'))
      (fun _ => Spent P (sc.pushed ty) (sc'.pushed ty')) x y) :
    InStep T (P sc sc') (declaring ty x) (declaring ty' y) := by
  intro s t hst
  rw [declaring_apply, declaring_apply, hP.left hst, hP.right hst]
  refine InStepTo.leaving (fun _ s₁ t₁ hst => ?_) hx _ _
    (hP.change (·.pushed ty) (·.pushed ty') hst)
  have hleave : ∀ {sc₁ sc₁'}, P sc₁ sc₁' s₁ t₁ →
      P (sc₁.lowered sc.frames.height) (sc₁'.lowered sc'.frames.height) _ _ :=
    fun hst => hP.change (·.lowered sc.frames.height) (·.lowered sc'.frames.height) hst
  rcases hst with hst | hst
  · have hst := hleave hst
    rwa [hs.lowered_eq (Or.inl rfl), hs'.lowered_eq (Or.inl rfl)] at hst
  · have hst := hleave hst
    rwa [hs.lowered_eq (Or.inr rfl), hs'.lowered_eq (Or.inr rfl)] at hst

end Pairing

end

/-! ## Scopes that serve alike -/

/-- Whether, between scopes that are so related, sides of entries are encoded alike, and
    whatever is entered from both is so related too. -/
structure Scope.Serves (r : Registry) (R : Scope → Scope → Prop) : Prop where
  depth : ∀ {sc sc'}, R sc sc' → sc'.depth = sc.depth
  entered : ∀ {sc sc'}, R sc sc' → sc.Entered → sc'.Entered
  slots : ∀ {sc sc'}, R sc sc' → ∀ key value : SideSetup Serializer,
    resolveSlots r sc'.frames sc'.args key value =
      (resolveSlots r sc.frames sc.args key value).map fun slots =>
        (slots.1, slots.2.1, sc'.keyType)
  deeper : ∀ {sc sc'}, R sc sc' → R sc.deeper sc'.deeper
  pushed : ∀ {sc sc'}, R sc sc' → ∀ ty, R (sc.pushed ty) (sc'.pushed ty)
  /-- The keys of what runs here may be declared in different ways. -/
  keys : ∀ {sc sc'}, R sc sc' → R (sc.pushed sc.keyType) (sc'.pushed sc'.keyType)

/-- Slots are resolved alike where the sides stand for the same final types. -/
theorem resolveSlots_congr {r : Registry} {sc sc' : Scope}
    (h : ∀ k : Nat, (sc'.args[k]?.bind sc'.frames.resolve).filter r.isFinal =
      (sc.args[k]?.bind sc.frames.resolve).filter r.isFinal) (key value : SideSetup Serializer) :
    resolveSlots r sc'.frames sc'.args key value =
      (resolveSlots r sc.frames sc.args key value).map fun slots =>
        (slots.1, slots.2.1, sc'.keyType) := by
  have hslot : ∀ (k : Nat) (side : Side) (setup : SideSetup Serializer),
      Slot.resolve r sc'.frames sc'.args[k]? side setup =
        Slot.resolve r sc.frames sc.args[k]? side setup := by
    intro k side setup
    unfold Slot.resolve
    rw [h k]
  unfold resolveSlots
  rw [hslot, hslot]
  cases Slot.resolve r sc.frames sc.args[0]? .key key with
  | error err => rfl
  | ok keySlot => cases Slot.resolve r sc.frames sc.args[1]? .value value <;> rfl

end GraphWire

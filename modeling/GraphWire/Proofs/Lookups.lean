/-
  What lookups fail with.

  A type, an id or a serializer that is looked up in a registry of leaves and containers
  may not be there.  The errors that say so have nothing to do with the numbers of
  objects: none is taken for that of an unfinished object (`same_rolling`), and none is
  raised on behalf of another.

  * `Registry.Sound.outcome_ne_refUnfinished`: so it is for serializers that are built when
    they are asked for, whatever they need;
  * `Registry.Sound.resolveSlots_ne_refUnfinished`: hence for the sides of a container.
-/
import GraphWire.Proofs.Comparing
import GraphWire.Proofs.Resolution

namespace GraphWire

/-- What may be different between a reading and the reading by roll: nothing, and no
    number is found unfinished. -/
def Tolerance.rolling : Tolerance where
  same err err' := err = err' ∧ ∀ id, err ≠ .refUnfinished id
  early _ := False

theorem same_rolling {err : Error} (h : ∀ id, err ≠ .refUnfinished id) :
    Tolerance.rolling.same err err :=
  ⟨rfl, h⟩

namespace Registry

variable {r : Registry} {type : ObjectType} {err : Error} {depth id : Nat} {path : List ObjectType}

theorem classOf_ne_refUnfinished (h : r.classOf type = .error err) (id : Nat) :
    err ≠ .refUnfinished id := by
  unfold classOf at h
  split at h <;> cases h
  simp

theorem classOfId_ne_refUnfinished {n : Nat} (h : r.classOfId n = .error err) (id : Nat) :
    err ≠ .refUnfinished id := by
  unfold classOfId at h
  split at h <;> cases h
  simp

theorem sideOutcome_ne_refUnfinished {ask : ObjectType → Except Error Serializer}
    (hask : ∀ u, ask u = .error err → err ≠ .refUnfinished id) {side : Side} {b : SideBinding}
    (h : r.sideOutcome ask side b = .error err) : err ≠ .refUnfinished id := by
  obtain ⟨type, serializer, nullable⟩ := b
  cases type with
  | none =>
    cases serializer <;> cases h
    simp
  | some type =>
    rcases except_bind_eq_error.1 h with hc | ⟨c, -, h⟩
    · exact classOf_ne_refUnfinished hc id
    rcases except_bind_eq_error.1 h with hs | ⟨s, -, h⟩
    · cases serializer with
      | none => exact hask type hs
      | some s => cases hs
    · cases h

/-- Whatever a serializer needs, it is never refused for a number. -/
theorem Sound.outcome_ne_refUnfinished (hr : r.Sound)
    (h : r.outcome depth path type = .error err) : err ≠ .refUnfinished id := by
  induction depth generalizing path type with
  | zero =>
    cases h
    simp
  | succ depth ih =>
    cases hreg : r.find? type with
    | none =>
      rw [outcome_of_none hreg] at h
      cases h
      simp
    | some reg =>
      cases hrecipe : reg.recipe with
      | ready s =>
        rw [outcome_of_ready hreg hrecipe] at h
        cases h
      | failing e => cases hr.of_find? hreg <;> cases hrecipe
      | binding b =>
        rw [outcome_of_binding hreg hrecipe] at h
        split at h
        · cases h
          simp
        · rcases except_bind_eq_error.1 h with hkey | ⟨key, -, h⟩
          · exact sideOutcome_ne_refUnfinished (fun _ => ih) hkey
          rcases except_bind_eq_error.1 h with hvalue | ⟨value, -, h⟩
          · exact sideOutcome_ne_refUnfinished (fun _ => ih) hvalue
          · cases h

/-- A registry of leaves and containers never refuses a serializer for a number. -/
theorem Sound.serializer_ne_refUnfinished (hr : r.Sound) (h : r.serializer type = .error err)
    (id : Nat) : err ≠ .refUnfinished id :=
  hr.outcome_ne_refUnfinished ((hr.serializer_eq type).symm.trans h)

theorem Sound.resolve_ne_refUnfinished (hr : r.Sound) {frames : Frames} {ty : Option Declared}
    {side : Side} {setup : SideSetup Serializer}
    (h : Slot.resolve r frames ty side setup = .error err) (id : Nat) :
    err ≠ .refUnfinished id := by
  unfold Slot.resolve at h
  split at h
  · cases h
  · split at h
    · cases h
    rcases except_bind_eq_error.1 h with hc | ⟨c, -, h⟩
    · exact classOf_ne_refUnfinished hc id
    rcases except_bind_eq_error.1 h with hs | ⟨s, -, h⟩
    · exact hr.serializer_ne_refUnfinished hs id
    · cases h

theorem Sound.resolveSlots_ne_refUnfinished (hr : r.Sound) {frames : Frames}
    {args : List Declared} {key value : SideSetup Serializer}
    (h : resolveSlots r frames args key value = .error err) (id : Nat) :
    err ≠ .refUnfinished id := by
  rcases except_bind_eq_error.1 h with hkey | ⟨keySlot, -, h⟩
  · exact hr.resolve_ne_refUnfinished hkey id
  rcases except_bind_eq_error.1 h with hvalue | ⟨valueSlot, -, h⟩
  · exact hr.resolve_ne_refUnfinished hvalue id
  · cases h

end Registry

theorem containerType_ne_refUnfinished {c : ClassInfo} {factory : Option ContainerType}
    {err : Error} (h : c.containerType factory = .error err) (id : Nat) :
    err ≠ .refUnfinished id := by
  unfold ClassInfo.containerType at h
  split at h <;> cases h
  simp

end GraphWire

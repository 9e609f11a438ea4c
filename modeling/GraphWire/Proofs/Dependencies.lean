/-
  What serializers depend on.

  A type that is registered with a binding depends on the classes of its sides that are
  named without a serializer (`Registry.Depends`), and is broken if a side names what there
  is not (`Registry.Broken`).  Asking for a serializer walks down these dependencies.  What
  comes of that is said by `Registry.outcome`, which knows nothing of what was kept or marked
  before, but only of the types on the way to where it is.

  * `Registry.outcome_stable`: a serializer does not depend on the way to its type;
  * `Registry.outcome_succ`: nor does an outcome on the depth, if there is room for all types;
  * `Registry.isOk_outcome_iff`: a type has a serializer iff none that it reaches is broken or
    depends on itself.
-/
import GraphWire.Proofs.Registries
import Mathlib.Data.List.Perm.Subperm
import Mathlib.Logic.Relation

namespace GraphWire

/-! ## Dependencies -/

namespace SideBinding

/-- Whether a side is given the serializer that a type is registered with. -/
def Needs (b : SideBinding) (t : ObjectType) : Prop := b.type = some t ∧ b.serializer = none

/-- Whether a side has a serializer without a class, or a class that is not registered. -/
def Breaks (r : Registry) (b : SideBinding) : Prop :=
  (b.type = none ∧ b.serializer.isSome) ∨ ∃ t, b.type = some t ∧ r.find? t = none

end SideBinding

namespace MapBinding

/-- Whether one side or the other needs a type. -/
def Needs (b : MapBinding) (t : ObjectType) : Prop := b.key.Needs t ∨ b.value.Needs t

/-- Whether one side or the other is broken. -/
def Breaks (r : Registry) (b : MapBinding) : Prop := b.key.Breaks r ∨ b.value.Breaks r

end MapBinding

namespace Registry

/-- Whether the serializer of a type is built from that of another. -/
def Depends (r : Registry) (t u : ObjectType) : Prop :=
  ∃ reg b, r.find? t = some reg ∧ reg.recipe = .binding b ∧ b.Needs u

/-- Whether a type has dependencies on the way to another or is that itself. -/
abbrev Reaches (r : Registry) : ObjectType → ObjectType → Prop := Relation.ReflTransGen r.Depends

/-- Whether a type depends on itself, over others or not. -/
def Cyclic (r : Registry) (t : ObjectType) : Prop := Relation.TransGen r.Depends t t

/-- Whether what a type is registered with can never be built. -/
def Broken (r : Registry) (t : ObjectType) : Prop :=
  ∃ reg, r.find? t = some reg ∧
    ((∃ b, reg.recipe = .binding b ∧ b.Breaks r) ∨ ∃ e, reg.recipe = .failing e)

/-! ## Outcomes -/

/-- What is known of a side, given what comes of asking for the serializers of other types. -/
def sideOutcome (r : Registry) (ask : ObjectType → Except Error Serializer) (side : Side)
    (b : SideBinding) : Except Error (SideSetup Serializer) :=
  match b.type, b.serializer with
  | none, none => .ok { nullable := b.nullable }
  | none, some _ => .error (.classMissing side)
  | some type, given => do
    let cls ← r.classOf type
    let serializer ← given.elim (ask type) .ok
    return { cls := some cls, serializer := some serializer, nullable := b.nullable }

/-- The serializer of containers that are bound so. -/
def mapOutcome (r : Registry) (ask : ObjectType → Except Error Serializer) (b : MapBinding) :
    Except Error Serializer := do
  let key ← r.sideOutcome ask .key b.key
  let value ← r.sideOutcome ask .value b.value
  return .map key value none

/-- What comes of asking for the serializer of a type, after `path` was come along. -/
def outcome (r : Registry) : (depth : Nat) → (path : List ObjectType) → ObjectType →
    Except Error Serializer
  | 0, _, type => .error (.selfDependent type)
  | depth + 1, path, type =>
    match r.find? type with
    | none => .error (.unregisteredType type)
    | some reg =>
      match reg.recipe with
      | .ready serializer => .ok serializer
      | .failing e => .error e
      | .binding b =>
        if type ∈ path then .error (.selfDependent type)
        else r.mapOutcome (r.outcome depth (type :: path)) b

variable {r r' : Registry} {t u : ObjectType} {s : Serializer} {e : Error} {depth : Nat}
  {path : List ObjectType} {ask ask' : ObjectType → Except Error Serializer}

section
variable {side : Side} {b : SideBinding}

/-- Of the outcomes for other types, only that for the type that is needed counts. -/
theorem sideOutcome_congr (h : ∀ u, b.Needs u → ask u = ask' u) :
    r.sideOutcome ask side b = r.sideOutcome ask' side b := by
  obtain ⟨type, serializer, nullable⟩ := b
  cases type with
  | none => cases serializer <;> rfl
  | some type =>
    cases serializer with
    | some s => rfl
    | none =>
      simp only [sideOutcome, Option.elim_none]
      rw [h type ⟨rfl, rfl⟩]

/-- A side for which all is found is not broken, and what it needs has a serializer. -/
theorem sideOutcome_eq_ok {setup : SideSetup Serializer}
    (h : r.sideOutcome ask side b = .ok setup) :
    ¬b.Breaks r ∧ ∀ u, b.Needs u → ∃ s, ask u = .ok s := by
  obtain ⟨type, serializer, nullable⟩ := b
  unfold sideOutcome at h
  cases type with
  | none =>
    cases serializer with
    | some s => cases h
    | none => exact ⟨by simp [SideBinding.Breaks], by simp [SideBinding.Needs]⟩
  | some type =>
    obtain ⟨c, hc, h⟩ := except_bind_eq_ok.1 h
    obtain ⟨s, hs, -⟩ := except_bind_eq_ok.1 h
    obtain ⟨reg, hreg, -⟩ := classOf_eq_ok.1 hc
    refine ⟨by simp [SideBinding.Breaks, hreg], ?_⟩
    rintro u ⟨⟨⟩, ⟨⟩⟩
    exact ⟨s, hs⟩

/-- A side for which not all is found is broken, or what it needs has no serializer. -/
theorem sideOutcome_eq_error (h : r.sideOutcome ask side b = .error e) :
    b.Breaks r ∨ ∃ u, b.Needs u ∧ ∃ e', ask u = .error e' := by
  obtain ⟨type, serializer, nullable⟩ := b
  unfold sideOutcome at h
  cases type with
  | none =>
    cases serializer with
    | some s => exact Or.inl (Or.inl ⟨rfl, rfl⟩)
    | none => cases h
  | some type =>
    cases hreg : r.find? type with
    | none => exact Or.inl (Or.inr ⟨type, rfl, hreg⟩)
    | some reg =>
      rcases except_bind_eq_error.1 h with hc | ⟨c, -, h⟩
      · cases hc.symm.trans (classOf_eq_ok.2 ⟨reg, hreg, rfl⟩)
      rcases except_bind_eq_error.1 h with hs | ⟨s, -, h⟩
      · cases serializer with
        | some s => cases hs
        | none => exact Or.inr ⟨type, ⟨rfl, rfl⟩, e, hs⟩
      · cases h

end

section
variable {b : MapBinding}

theorem mapOutcome_congr (h : ∀ u, b.Needs u → ask u = ask' u) :
    r.mapOutcome ask b = r.mapOutcome ask' b := by
  unfold mapOutcome
  rw [sideOutcome_congr fun u hu => h u (Or.inl hu), sideOutcome_congr fun u hu => h u (Or.inr hu)]

theorem mapOutcome_eq_ok (h : r.mapOutcome ask b = .ok s) :
    ¬b.Breaks r ∧ ∀ u, b.Needs u → ∃ s, ask u = .ok s := by
  obtain ⟨key, hkey, h⟩ := except_bind_eq_ok.1 h
  obtain ⟨value, hvalue, -⟩ := except_bind_eq_ok.1 h
  obtain ⟨hk, hks⟩ := sideOutcome_eq_ok hkey
  obtain ⟨hv, hvs⟩ := sideOutcome_eq_ok hvalue
  exact ⟨not_or.2 ⟨hk, hv⟩, fun u hu => hu.elim (hks u) (hvs u)⟩

theorem mapOutcome_eq_error (h : r.mapOutcome ask b = .error e) :
    b.Breaks r ∨ ∃ u, b.Needs u ∧ ∃ e', ask u = .error e' := by
  rcases except_bind_eq_error.1 h with hkey | ⟨key, -, h⟩
  · exact (sideOutcome_eq_error hkey).imp Or.inl fun ⟨u, hu, ha⟩ => ⟨u, Or.inl hu, ha⟩
  rcases except_bind_eq_error.1 h with hvalue | ⟨value, -, h⟩
  · exact (sideOutcome_eq_error hvalue).imp Or.inr fun ⟨u, hu, ha⟩ => ⟨u, Or.inr hu, ha⟩
  · cases h

end

section
variable {reg : Registration}

theorem outcome_of_none (h : r.find? t = none) :
    r.outcome (depth + 1) path t = .error (.unregisteredType t) := by
  simp only [outcome, h]

theorem outcome_of_ready (h : r.find? t = some reg) (hs : reg.recipe = .ready s) :
    r.outcome (depth + 1) path t = .ok s := by
  simp only [outcome, h, hs]

theorem outcome_of_failing (h : r.find? t = some reg) (he : reg.recipe = .failing e) :
    r.outcome (depth + 1) path t = .error e := by
  simp only [outcome, h, he]

theorem outcome_of_binding {b : MapBinding} (h : r.find? t = some reg)
    (hb : reg.recipe = .binding b) : r.outcome (depth + 1) path t =
      if t ∈ path then .error (.selfDependent t)
      else r.mapOutcome (r.outcome depth (t :: path)) b := by
  simp only [outcome, h, hb]

end

/-- What has a serializer is ready, or is not on the way and is built from its sides. -/
theorem outcome_eq_ok (h : r.outcome (depth + 1) path t = .ok s) :
    ∃ reg, r.find? t = some reg ∧ (reg.recipe = .ready s ∨ t ∉ path ∧
      ∃ b, reg.recipe = .binding b ∧ r.mapOutcome (r.outcome depth (t :: path)) b = .ok s) := by
  cases hreg : r.find? t with
  | none =>
    rw [outcome_of_none hreg] at h
    cases h
  | some reg =>
    refine ⟨reg, rfl, ?_⟩
    cases hrecipe : reg.recipe with
    | ready s' =>
      rw [outcome_of_ready hreg hrecipe] at h
      cases h
      exact Or.inl rfl
    | failing e =>
      rw [outcome_of_failing hreg hrecipe] at h
      cases h
    | binding b =>
      rw [outcome_of_binding hreg hrecipe] at h
      split at h
      · cases h
      · next ht => exact Or.inr ⟨ht, b, rfl, h⟩

theorem exists_succ_of_outcome (h : r.outcome depth path t = .ok s) : ∃ d, depth = d + 1 := by
  cases depth with
  | zero => cases h
  | succ d => exact ⟨d, rfl⟩

/-- What the type of a serializer depends on has one too. -/
theorem outcome_of_depends (h : r.outcome (depth + 1) path t = .ok s) (hd : r.Depends t u) :
    t ∉ path ∧ ∃ s', r.outcome depth (t :: path) u = .ok s' := by
  obtain ⟨reg, b, hreg, hrecipe, hneeds⟩ := hd
  obtain ⟨reg', hreg', hready | ⟨ht, b', hrecipe', hmap⟩⟩ := outcome_eq_ok h
  · cases hreg.symm.trans hreg'
    cases hrecipe.symm.trans hready
  · cases hreg.symm.trans hreg'
    cases hrecipe.symm.trans hrecipe'
    exact ⟨ht, (mapOutcome_eq_ok hmap).2 u hneeds⟩

theorem outcome_of_reaches (h : r.outcome depth path t = .ok s) (hu : r.Reaches t u) :
    ∃ d p s', r.outcome d p u = .ok s' := by
  induction hu with
  | refl => exact ⟨depth, path, s, h⟩
  | tail _ hd ih =>
    obtain ⟨d, p, s', h'⟩ := ih
    obtain ⟨d, rfl⟩ := exists_succ_of_outcome h'
    obtain ⟨-, s'', h''⟩ := outcome_of_depends h' hd
    exact ⟨_, _, s'', h''⟩

theorem not_broken_of_outcome (h : r.outcome depth path t = .ok s) : ¬r.Broken t := by
  obtain ⟨d, rfl⟩ := exists_succ_of_outcome h
  rintro ⟨reg, hreg, hbroken⟩
  obtain ⟨reg', hreg', hready | ⟨-, b, hrecipe, hmap⟩⟩ := outcome_eq_ok h
  · cases hreg.symm.trans hreg'
    simp [hready] at hbroken
  · cases hreg.symm.trans hreg'
    obtain ⟨b', hb', hbreaks⟩ | ⟨e, he⟩ := hbroken
    · cases hrecipe.symm.trans hb'
      exact (mapOutcome_eq_ok hmap).1 hbreaks
    · cases hrecipe.symm.trans he

/-- The type of a serializer does not reach back to the way to it, as far as anything there
    has dependencies at all. -/
theorem not_reaches_path (h : r.outcome depth path t = .ok s) (hu : u ∈ path)
    (hd : ∃ v, r.Depends u v) : ¬r.Reaches t u := by
  intro hr
  induction depth generalizing path t s with
  | zero => cases h
  | succ depth ih =>
    rcases hr.cases_head with rfl | ⟨v, htv, hvu⟩
    · obtain ⟨v, hv⟩ := hd
      exact (outcome_of_depends h hv).1 hu
    · obtain ⟨-, s', h'⟩ := outcome_of_depends h htv
      exact ih h' (List.mem_cons_of_mem t hu) hvu

theorem not_cyclic_of_outcome (h : r.outcome depth path t = .ok s) : ¬r.Cyclic t := by
  intro hcyclic
  obtain ⟨d, rfl⟩ := exists_succ_of_outcome h
  obtain ⟨v, hv, hvt⟩ := Relation.TransGen.head'_iff.1 hcyclic
  obtain ⟨-, s', h'⟩ := outcome_of_depends h hv
  exact not_reaches_path h' List.mem_cons_self ⟨v, hv⟩ hvt

/-! ## Room for marks -/

/-- Whether a way along registered types may still go on as far as there are others. -/
structure Room (r : Registry) (depth : Nat) (path : List ObjectType) : Prop where
  nodup : path.Nodup
  found : ∀ t ∈ path, (r.find? t).isSome
  enough : r.registrations.length < depth + path.length

theorem room_start : r.Room (r.registrations.length + 1) [] :=
  ⟨List.nodup_nil, by simp, by simp⟩

namespace Room

/-- A type more on the way is one less that may still come. -/
theorem cons (h : r.Room (depth + 1) path) (ht : t ∉ path) {reg : Registration}
    (hreg : r.find? t = some reg) : r.Room depth (t :: path) where
  nodup := List.nodup_cons.2 ⟨ht, h.nodup⟩
  found := List.forall_mem_cons.2 ⟨by rw [hreg]; rfl, h.found⟩
  enough := by
    have := h.enough
    rw [List.length_cons]
    omega

theorem of_le (h : r.Room depth path) {d : Nat} (hd : depth ≤ d) : r.Room d path where
  nodup := h.nodup
  found := h.found
  enough := by
    have := h.enough
    omega

/-- The way is never longer than there are types. -/
theorem exists_succ (h : r.Room depth path) : ∃ d, depth = d + 1 := by
  have hsub : path ⊆ r.registrations.map (·.type) := by
    intro t ht
    obtain ⟨reg, hreg⟩ := Option.isSome_iff_exists.1 (h.found t ht)
    exact List.mem_map.2 ⟨reg, mem_of_find? hreg, type_of_find? hreg⟩
  have hle := (List.subperm_of_subset h.nodup hsub).length_le
  rw [List.length_map] at hle
  have := h.enough
  exact ⟨depth - 1, by omega⟩

end Room

/-- **A serializer does not depend on the way to its type**, if nothing on the way is reached
    again. -/
theorem outcome_stable {d : Nat} {p : List ObjectType} (h : r.outcome depth path t = .ok s)
    (hroom : r.Room d p) (hp : ∀ u ∈ p, ¬r.Reaches t u) : r.outcome d p t = .ok s := by
  induction depth generalizing path t s d p with
  | zero => cases h
  | succ depth ih =>
    obtain ⟨d, rfl⟩ := hroom.exists_succ
    obtain ⟨reg, hreg, hready | ⟨-, b, hrecipe, hmap⟩⟩ := outcome_eq_ok h
    · exact outcome_of_ready hreg hready
    · have ht : t ∉ p := fun hmem => hp t hmem .refl
      rw [outcome_of_binding hreg hrecipe, if_neg ht, ← hmap]
      refine mapOutcome_congr fun u hneeds => ?_
      have hd : r.Depends t u := ⟨reg, b, hreg, hrecipe, hneeds⟩
      obtain ⟨-, s', h'⟩ := outcome_of_depends h hd
      -- what is needed does not reach the type either, which is now on the way
      have hp' : ∀ v ∈ t :: p, ¬r.Reaches u v := List.forall_mem_cons.2
        ⟨fun hut => not_cyclic_of_outcome h (.head' hd hut), fun v hv huv => hp v hv (.head hd huv)⟩
      rw [h', ih h' (hroom.cons ht hreg) hp']

/-- More depth than there is room for changes nothing. -/
theorem outcome_succ (hroom : r.Room depth path) :
    r.outcome (depth + 1) path t = r.outcome depth path t := by
  induction depth generalizing path t with
  | zero =>
    obtain ⟨d, hd⟩ := hroom.exists_succ
    cases hd
  | succ depth ih =>
    cases hreg : r.find? t with
    | none => rw [outcome_of_none hreg, outcome_of_none hreg]
    | some reg =>
      cases hrecipe : reg.recipe with
      | ready s => rw [outcome_of_ready hreg hrecipe, outcome_of_ready hreg hrecipe]
      | failing e => rw [outcome_of_failing hreg hrecipe, outcome_of_failing hreg hrecipe]
      | binding b =>
        rw [outcome_of_binding hreg hrecipe, outcome_of_binding hreg hrecipe]
        split
        · rfl
        · next ht => exact mapOutcome_congr fun u _ => ih (hroom.cons ht hreg)

theorem outcome_of_le (hroom : r.Room depth path) {d : Nat} (hd : depth ≤ d) :
    r.outcome d path t = r.outcome depth path t := by
  induction hd with
  | refl => rfl
  | step hd ih => rw [outcome_succ (hroom.of_le hd), ih]

/-! ## When there is a serializer -/

/-- Where there is none, something on the way down is broken or depends on itself. -/
theorem outcome_eq_error (hroom : r.Room depth path)
    (hp : ∀ u ∈ path, Relation.TransGen r.Depends u t) (h : r.outcome depth path t = .error e) :
    r.find? t = none ∨ ∃ u, r.Reaches t u ∧ (r.Broken u ∨ r.Cyclic u) := by
  induction depth generalizing path t e with
  | zero =>
    obtain ⟨d, hd⟩ := hroom.exists_succ
    cases hd
  | succ depth ih =>
    cases hreg : r.find? t with
    | none => exact Or.inl rfl
    | some reg =>
      refine Or.inr ?_
      cases hrecipe : reg.recipe with
      | ready s =>
        rw [outcome_of_ready hreg hrecipe] at h
        cases h
      | failing e' => exact ⟨t, .refl, Or.inl ⟨reg, hreg, Or.inr ⟨e', hrecipe⟩⟩⟩
      | binding b =>
        have hbroken : b.Breaks r → ∃ u, r.Reaches t u ∧ (r.Broken u ∨ r.Cyclic u) := fun hb =>
          ⟨t, .refl, Or.inl ⟨reg, hreg, Or.inl ⟨b, hrecipe, hb⟩⟩⟩
        rw [outcome_of_binding hreg hrecipe] at h
        split at h
        · next ht => exact ⟨t, .refl, Or.inr (hp t ht)⟩
        · next ht =>
          rcases mapOutcome_eq_error h with hbreaks | ⟨u, hneeds, e', hu⟩
          · exact hbroken hbreaks
          have hd : r.Depends t u := ⟨reg, b, hreg, hrecipe, hneeds⟩
          have hp' : ∀ v ∈ t :: path, Relation.TransGen r.Depends v u :=
            List.forall_mem_cons.2 ⟨.single hd, fun v hv => (hp v hv).tail hd⟩
          rcases ih (hroom.cons ht hreg) hp' hu with hnone | ⟨v, hv, hbad⟩
          · exact hbroken (hneeds.imp (fun hk => Or.inr ⟨u, hk.1, hnone⟩)
              fun hv => Or.inr ⟨u, hv.1, hnone⟩)
          · exact ⟨v, .head hd hv, hbad⟩

/-- **A type has a serializer iff it is registered and nothing that it reaches is broken or
    depends on itself.** -/
theorem isOk_outcome_iff : (∃ s, r.outcome (r.registrations.length + 1) [] t = .ok s) ↔
    (r.find? t).isSome ∧ ∀ u, r.Reaches t u → ¬r.Broken u ∧ ¬r.Cyclic u := by
  constructor
  · rintro ⟨s, h⟩
    obtain ⟨reg, hreg, -⟩ := outcome_eq_ok h
    refine ⟨by rw [hreg]; rfl, fun u hu => ?_⟩
    obtain ⟨d, p, s', h'⟩ := outcome_of_reaches h hu
    exact ⟨not_broken_of_outcome h', not_cyclic_of_outcome h'⟩
  · rintro ⟨hfound, hfine⟩
    cases h : r.outcome (r.registrations.length + 1) [] t with
    | ok s => exact ⟨s, rfl⟩
    | error e =>
      rcases outcome_eq_error room_start (by simp) h with hnone | ⟨u, hu, hbad⟩
      · rw [hnone] at hfound
        cases hfound
      · exact absurd hbad (not_or.2 (hfine u hu))

end Registry

end GraphWire

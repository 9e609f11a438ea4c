/-
  Serializers are found.

  In a registry of leaves and containers a class has one serializer
  (`Registry.Gives.unique`), and no class depends on itself
  (`Registry.Gives.not_cyclic`).  What comes of asking for serializers
  (`Registry.outcome`) is then no more and no less than these.

  * `Registry.Sound.gives_of_serializer`: the serializers that are asked for are those that
    the types have;
  * `Registry.Sound.serializer_eq_ok`: whoever asks for the serializer of a class is given it.
-/
import GraphWire.Proofs.Histories

namespace GraphWire

namespace Registry

variable {r : Registry} {c c' : ClassInfo} {s s' : Serializer} {t u : ObjectType} {depth : Nat}
  {path : List ObjectType}

/-! ## One serializer for each class -/

theorem eq_of_map_type {key key' : Option (ClassInfo × Serializer)}
    (hk : ∀ c s, key = some (c, s) → ∀ c' s', r.Gives c' s' → c.type = c'.type → c = c' ∧ s = s')
    (hk' : ∀ c s, key' = some (c, s) → r.Gives c s)
    (ht : key.map (·.1.type) = key'.map (·.1.type)) : key = key' := by
  cases key with
  | none =>
    cases key' with
    | none => rfl
    | some k' => cases ht
  | some k =>
    cases key' with
    | none => cases ht
    | some k' =>
      obtain ⟨h₁, h₂⟩ := hk k.1 k.2 rfl k'.1 k'.2 (hk' k'.1 k'.2 rfl) (Option.some.inj ht)
      exact congrArg some (Prod.ext h₁ h₂)

/-- **A type has one class and one serializer.** -/
theorem Gives.unique (h : r.Gives c s) (h' : r.Gives c' s') (ht : c.type = c'.type) :
    c = c' ∧ s = s' := by
  induction h generalizing c' s' with
  | @leaf type reg hreg =>
    have hty := type_of_find? hreg
    cases h' with
    | leaf hreg' =>
      have hty' := type_of_find? hreg'
      cases hty.symm.trans (ht.trans hty')
      cases hreg.symm.trans hreg'
      exact ⟨rfl, rfl⟩
    | map hreg' => cases hty.symm.trans (ht.trans (type_of_find? hreg'))
  | @map type reg key value hreg hkt hvt _ _ ihk ihv =>
    have hty := type_of_find? hreg
    cases h' with
    | leaf hreg' => cases hty.symm.trans (ht.trans (type_of_find? hreg'))
    | @map _ _ key' value' hreg' hkt' hvt' hk' hv' =>
      have hty' := type_of_find? hreg'
      cases hty.symm.trans (ht.trans hty')
      cases hreg.symm.trans hreg'
      cases eq_of_map_type (fun c s h => fun _ _ => ihk c s h) hk' (hkt.symm.trans hkt')
      cases eq_of_map_type (fun c s h => fun _ _ => ihv c s h) hv' (hvt.symm.trans hvt')
      exact ⟨rfl, rfl⟩

/-- So a type names one class with its serializer. -/
theorem target_unique {key key' : Option (ClassInfo × Serializer)}
    (hk : ∀ c s, key = some (c, s) → r.Gives c s) (hk' : ∀ c s, key' = some (c, s) → r.Gives c s)
    (ht : key.map (·.1.type) = key'.map (·.1.type)) : key = key' :=
  eq_of_map_type (fun c s h _ _ h' => (hk c s h).unique h') hk' ht

/-! ## Ways down from a type -/

/-- What a side of a class names has a smaller serializer. -/
theorem Gives.named (hr : r.Sound) (h : r.Gives c s) {reg : Registration} {b : SideBinding}
    (hreg : r.find? c.type = some reg) (hb : b = reg.binding.key ∨ b = reg.binding.value)
    (hbt : b.type = some t) : ∃ c' s', c'.type = t ∧ r.Gives c' s' ∧ sizeOf s' < sizeOf s := by
  cases h with
  | leaf hleaf =>
    have hty := type_of_find? hleaf
    rw [hty, hleaf] at hreg
    cases hreg
    have hbind := ((hr.of_find? hleaf).recipe_leaf hty).2
    rw [hbind] at hb
    rcases hb with rfl | rfl <;> cases hbt
  | @map type reg' key value hmap hkt hvt hk hv =>
    rw [type_of_find? hmap, hmap] at hreg
    cases hreg
    rcases hb with rfl | rfl
    · obtain ⟨⟨ck, sk⟩, rfl, rfl⟩ := Option.map_eq_some_iff.1 (hkt.symm.trans hbt)
      exact ⟨ck, sk, rfl, hk ck sk rfl, by simp [SideBinding.setup]; omega⟩
    · obtain ⟨⟨cv, sv⟩, rfl, rfl⟩ := Option.map_eq_some_iff.1 (hvt.symm.trans hbt)
      exact ⟨cv, sv, rfl, hv cv sv rfl, by simp [SideBinding.setup]; omega⟩

/-- No class is named by a side of its own. -/
theorem Gives.type_ne (hr : r.Sound) (h : r.Gives c s) {reg : Registration} {b : SideBinding}
    (hreg : r.find? c.type = some reg) (hb : b = reg.binding.key ∨ b = reg.binding.value) :
    b.type ≠ some c.type := by
  intro hbt
  obtain ⟨c', s', hc', hg', hlt⟩ := h.named hr hreg hb hbt
  obtain ⟨-, rfl⟩ := hg'.unique h hc'
  omega

/-- What a class depends on has a smaller serializer. -/
theorem Gives.of_depends (hr : r.Sound) (h : r.Gives c s) (hd : r.Depends c.type t) :
    ∃ c' s', c'.type = t ∧ r.Gives c' s' ∧ sizeOf s' < sizeOf s := by
  obtain ⟨reg, b, hreg, hrecipe, hneeds⟩ := hd
  have hb : reg.binding = b := by simp [Registration.binding, hrecipe]
  rcases hneeds with ⟨hkey, -⟩ | ⟨hvalue, -⟩
  · exact h.named hr hreg (Or.inl rfl) (hb ▸ hkey)
  · exact h.named hr hreg (Or.inr rfl) (hb ▸ hvalue)

theorem Gives.of_reaches (hr : r.Sound) (h : r.Gives c s) (ht : r.Reaches c.type t) :
    ∃ c' s', c'.type = t ∧ r.Gives c' s' ∧ sizeOf s' ≤ sizeOf s := by
  induction ht with
  | refl => exact ⟨c, s, rfl, h, Nat.le_refl _⟩
  | tail _ hd ih =>
    obtain ⟨c₁, s₁, rfl, hg₁, hle⟩ := ih
    obtain ⟨c', s', hc', hg', hlt⟩ := hg₁.of_depends hr hd
    exact ⟨c', s', hc', hg', Nat.le_trans (Nat.le_of_lt hlt) hle⟩

/-- **No class depends on itself.** -/
theorem Gives.not_cyclic (hr : r.Sound) (h : r.Gives c s) : ¬r.Cyclic c.type := by
  intro hcyclic
  obtain ⟨u, hd, hu⟩ := Relation.TransGen.head'_iff.1 hcyclic
  obtain ⟨c₁, s₁, rfl, hg₁, hlt⟩ := h.of_depends hr hd
  obtain ⟨c', s', hc', hg', hle⟩ := hg₁.of_reaches hr hu
  obtain ⟨-, rfl⟩ := hg'.unique h hc'
  omega

/-- What a class names is there. -/
theorem Gives.not_broken (hr : r.Sound) (h : r.Gives c s) : ¬r.Broken c.type := by
  rintro ⟨reg, hreg, ⟨b, hrecipe, hbreaks⟩ | ⟨e, he⟩⟩
  · have hb : reg.binding = b := by simp [Registration.binding, hrecipe]
    have hclasses : b.OfClasses := by
      cases hr.of_find? hreg with
      | leaf => cases hrecipe
      | container => cases hrecipe
      | bound _ _ hob =>
        cases hrecipe
        exact hob
    have hside : ∀ b', b' = reg.binding.key ∨ b' = reg.binding.value → b'.serializer = none →
        ¬b'.Breaks r := by
      rintro b' hb' hnone (⟨-, hsome⟩ | ⟨t, ht, hmissing⟩)
      · simp [hnone] at hsome
      · obtain ⟨c', s', rfl, hg', -⟩ := h.named hr hreg hb' ht
        obtain ⟨reg', hreg', -⟩ := hg'.classOf
        cases hmissing.symm.trans hreg'
    rcases hbreaks with hkey | hvalue
    · exact hside _ (Or.inl (hb ▸ rfl)) hclasses.1 hkey
    · exact hside _ (Or.inr (hb ▸ rfl)) hclasses.2 hvalue
  · cases hr.of_find? hreg <;> cases he

/-! ## What is asked for -/

/-- A side that is bound to a class has what its type has. -/
theorem target_of_sideOutcome {ask : ObjectType → Except Error Serializer}
    (hask : ∀ u s, ask u = .ok s → ∃ reg, r.find? u = some reg ∧ r.Gives reg.toClassInfo s)
    {side : Side} {b : SideBinding} (hb : b.serializer = none) {setup : SideSetup Serializer}
    (h : r.sideOutcome ask side b = .ok setup) :
    ∃ target : Option (ClassInfo × Serializer), setup = b.setup target ∧
      b.type = target.map (·.1.type) ∧ ∀ c s, target = some (c, s) → r.Gives c s := by
  obtain ⟨type, serializer, nullable⟩ := b
  obtain rfl : serializer = none := hb
  cases type with
  | none =>
    cases h
    exact ⟨none, rfl, rfl, by simp⟩
  | some type =>
    obtain ⟨c, hc, h⟩ := except_bind_eq_ok.1 h
    obtain ⟨s, hs, h⟩ := except_bind_eq_ok.1 h
    cases h
    obtain ⟨reg, hreg, hg⟩ := hask type s hs
    obtain ⟨reg', hreg', rfl⟩ := classOf_eq_ok.1 hc
    cases hreg.symm.trans hreg'
    refine ⟨some (reg.toClassInfo, s), rfl, by simp [type_of_find? hreg], ?_⟩
    rintro c' s' ⟨⟩
    exact hg

/-- **An outcome is the serializer that its type has.** -/
theorem Sound.gives_of_outcome (hr : r.Sound) (h : r.outcome depth path t = .ok s) :
    ∃ reg, r.find? t = some reg ∧ r.Gives reg.toClassInfo s := by
  induction depth generalizing path t s with
  | zero => cases h
  | succ depth ih =>
    obtain ⟨reg, hreg, hready | ⟨-, b, hrecipe, hmap⟩⟩ := outcome_eq_ok h
    · obtain rfl := type_of_find? hreg
      refine ⟨reg, hreg, ?_⟩
      cases hr.of_find? hreg with
      | leaf type =>
        cases hready
        exact .leaf hreg
      | container type =>
        cases hready
        have hplain : r.Gives _
            (.map (SideBinding.setup {} none) (SideBinding.setup {} none) none) :=
          .map hreg rfl rfl (by simp) (by simp)
        exact hplain
      | bound => cases hready
    · obtain rfl := type_of_find? hreg
      refine ⟨reg, hreg, ?_⟩
      obtain ⟨key, hkey, hmap⟩ := except_bind_eq_ok.1 hmap
      obtain ⟨value, hvalue, hmap⟩ := except_bind_eq_ok.1 hmap
      cases hmap
      cases hr.of_find? hreg with
      | leaf => cases hrecipe
      | container => cases hrecipe
      | bound type _ hob =>
        cases hrecipe
        obtain ⟨kt, rfl, hkt, hks⟩ := target_of_sideOutcome (fun _ _ => ih) hob.1 hkey
        obtain ⟨vt, rfl, hvt, hvs⟩ := target_of_sideOutcome (fun _ _ => ih) hob.2 hvalue
        exact .map hreg hkt hvt hks hvs

/-- What is asked for is the outcome. -/
theorem Sound.serializer_eq (hr : r.Sound) (t : ObjectType) :
    r.serializer t = r.outcome (r.registrations.length + 1) [] t :=
  (hr.settled.stage.demand t).2

/-- **A serializer that is asked for is the one its type has.** -/
theorem Sound.gives_of_serializer (hr : r.Sound) (h : r.serializer t = .ok s) :
    ∃ reg, r.find? t = some reg ∧ r.Gives reg.toClassInfo s :=
  hr.gives_of_outcome ((hr.serializer_eq t).symm.trans h)

theorem Sound.gives_of_find? (hr : r.Sound) {type : ObjectType} {reg : Registration}
    {s : Serializer} (hreg : r.find? type = some reg) (hs : r.serializer type = .ok s) :
    r.Gives reg.toClassInfo s := by
  obtain ⟨reg', hreg', hg⟩ := hr.gives_of_serializer hs
  cases hreg.symm.trans hreg'
  exact hg

theorem Sound.gives (hr : r.Sound) {type : ObjectType} {c : ClassInfo} {s : Serializer}
    (hc : r.classOf type = .ok c) (hs : r.serializer type = .ok s) : r.Gives c s := by
  obtain ⟨reg, hreg, rfl⟩ := classOf_eq_ok.1 hc
  exact hr.gives_of_find? hreg hs

theorem Sound.gives_of_object (hr : r.Sound) {type : ObjectType} {c : ClassInfo} {s : Serializer}
    (hc : r.classOfObject type = .ok c) (hs : r.serializer c.type = .ok s) :
    c.type = type ∧ r.Gives c s ∧ r.classOfId c.id = .ok c ∧ c.id + 1 < 2 ^ 32 := by
  obtain ⟨reg, hreg, rfl⟩ := classOfObject_eq_ok.1 hc
  have ht := type_of_find? hreg
  have hc : r.classOf reg.type = .ok reg.toClassInfo := classOf_eq_ok.2 ⟨reg, ht ▸ hreg, rfl⟩
  refine ⟨ht, hr.gives hc hs, ?_, ?_⟩
  · exact classOfId_eq_ok.2 ⟨reg, hr.findId?_of_mem (mem_of_find? hreg), rfl⟩
  · exact (hr.standard reg (mem_of_find? hreg)).id_lt

/-- The class of an id is one that there is a serializer for. -/
theorem Sound.gives_of_id (hr : r.Sound) {id : Nat} {c : ClassInfo} {s : Serializer}
    (hc : r.classOfId id = .ok c) (hs : r.serializer c.type = .ok s) : r.Gives c s := by
  obtain ⟨reg, hreg, rfl⟩ := classOfId_eq_ok.1 hc
  have hm : reg ∈ r.byId := List.mem_of_find?_eq_some hreg
  rw [hr.tables] at hm
  exact hr.gives (classOf_eq_ok.2 ⟨reg, hr.find?_of_mem hm, rfl⟩) hs

/-- **A class has the serializer that is asked for.** -/
theorem Sound.serializer_eq_ok (hr : r.Sound) (h : r.Gives c s) : r.serializer c.type = .ok s := by
  obtain ⟨reg, hreg, hc⟩ := h.classOf
  have hfine : ∀ u, r.Reaches c.type u → ¬r.Broken u ∧ ¬r.Cyclic u := by
    intro u hu
    obtain ⟨c', s', rfl, hg', -⟩ := h.of_reaches hr hu
    exact ⟨hg'.not_broken hr, hg'.not_cyclic hr⟩
  obtain ⟨s', hs'⟩ := isOk_outcome_iff.2 ⟨by rw [hreg]; rfl, hfine⟩
  rw [← hr.serializer_eq] at hs'
  obtain ⟨-, rfl⟩ := (hr.gives_of_find? hreg hs').unique h (congrArg ClassInfo.type hc)
  exact hs'

end Registry

end GraphWire

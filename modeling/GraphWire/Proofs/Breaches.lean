/-
  Bindings that are broken.

  What a side is bound to is kept by whatever is read exactly if the engine is
  guarded: each way in which it is not is open to a stream that breaks the binding.

  * `Engine.exists_null_read` gives null to a side without a class;
  * `Engine.exists_root_read` gives a container to one of its own sides;
  * `Engine.exists_stranger_read` gives an object of the class of one side to another;
  * `Engine.honours_iff_guarded`: there are no others.
-/
import GraphWire.Proofs.Acceptance
import GraphWire.Proofs.Fidelity
import GraphWire.Proofs.Forging

namespace GraphWire

variable {e : Engine} {b b' : SideBinding} {c : ClassInfo} {ser : Serializer} {as : Bytes}
  {type : ContainerType} {reg : Registration} {t t' : ObjectType}

/-- What a container that is led to holds, its side admits. -/
theorem Heap.Honours.admits {r : Registry} {h : Heap} {w v : Value} {o : ObjId}
    (hh : h.Honours r w) (ho : h.Leads w o) (hv : r.Carries b v h o) : b.Admits h v := by
  obtain ⟨ct, reg, hct, hreg, x, hx, ⟨rfl, rfl⟩ | ⟨rfl, rfl⟩⟩ := hv
  · exact (hh o ct reg ho hct hreg x hx).1
  · exact (hh o ct reg ho hct hreg x hx).2

/-- What a container holds, it holds however the heap goes on. -/
theorem Registry.Carries.later {r : Registry} {h h' : Heap} {v : Value} {o : ObjId}
    (hv : r.Carries b v h o) (hn : o < h.size → h'.node o = h.node o) : r.Carries b v h' o := by
  obtain ⟨ct, reg, hct, hreg, x, hx, hside⟩ := hv
  have hlt : o < h.size := Heap.lt_size_of_part (Heap.fst_mem_parts hct hx)
  exact ⟨ct, reg, (hn hlt).trans hct, hreg, x, hx, hside⟩

/-- The built-in types stay registered. -/
theorem Engine.Assembled.find?_of_builtins (he : e.Assembled)
    (hreg : Registry.builtins.find? t = some reg) : e.registry.find? t = some reg := by
  induction he with
  | start => exact hreg
  | registerMap _ _ h ih => exact Registry.find?_of_register (registry_of_register h) ih
  | registerMapWith _ _ _ h ih => exact Registry.find?_of_register (registry_of_register h) ih

/-- Linked containers are bound to nothing. -/
theorem Engine.Assembled.gives_linked (he : e.Assembled) :
    e.registry.Gives (Registration.ofContainer .linked 10).toClassInfo
      (.map (SideBinding.setup {} none) (SideBinding.setup {} none) none) := by
  have hreg : e.registry.find? (.container .linked) = some (.ofContainer .linked 10) :=
    he.find?_of_builtins rfl
  exact .map hreg rfl rfl (by simp) (by simp)

namespace Engine

/-! ## One container -/

/-- What can be given to a side can be held by a container that is read. -/
theorem exists_held_read (he : e.registry.Sound) (hd : 2 ≤ e.config.maxDepth) (h₀ : Heap)
    (hreg : e.registry.find? (.container type) = some reg)
    (hser : e.registry.serializer (.container type) = .ok ser)
    (hb : b = reg.binding.key ∨ b = reg.binding.value) (target : Option (ClassInfo × Serializer))
    (hbt : b.type = target.map (·.1.type))
    (ht : ∀ c ser, target = some (c, ser) → e.registry.Gives c ser)
    {Q : Value → Bindings → Heap → Prop} (hQ : ∀ v, Firm e (Q v))
    (hx : ∀ l side, Yields e (e.Room (l + 1)) as
      (Reading.sideVia e (Reading.data e (l + 1)) ⟨target, b.nullable, side⟩)
      (fun b h => e.config.trackRef = true → ∃ v, First (.container type) v b h) Q) :
    ∃ bs h o v b', e.deserialize h₀ bs = .ok (some o, h) ∧ e.registry.Carries b v h o ∧
      Q v b' h := by
  obtain ⟨l, hl⟩ := Nat.exists_eq_add_of_le' hd
  have hP : Firm e fun b h => e.config.trackRef = true → ∃ v, First (.container type) v b h := by
    refine ⟨fun b h h' hbef hp htr => ?_, fun htr b h hp => ?_⟩
    · obtain ⟨v, hv⟩ := hp htr
      exact ⟨v, (firm_first e _ v).later b h h' hbef hv⟩
    · obtain ⟨v, hv⟩ := hp htr
      exact (firm_first e _ v).first htr b h hv
  have hg := he.gives_of_find? hreg hser
  obtain ⟨bs, hholds⟩ := Yields.holding he hreg hser hb target hbt ht as
  have hread := hholds _ Q hP hQ hx
  have hobject : ∃ cs, Yields e (e.Room (l + 2)) cs
      (Reading.objectVia e (Reading.data e (l + 2)) reg.toClassInfo ser) (fun b _ => b.bound = #[])
      fun o bs h => ∃ v, e.registry.Carries b v h o ∧ Q v bs h := by
    unfold Reading.objectVia
    by_cases htr : e.tracks reg.toClassInfo = true
    · rw [if_pos htr]
      refine ⟨_, Yields.take (Reading.takes_marker .fresh) (Yields.fresh (hread l (some 0) _ ?_))⟩
      intro b h hb _
      refine ⟨some h.size, h.size, rfl, ?_, by simp, ?_⟩
      · simp [Bindings.get_eq_ok, Bindings.expect, Bindings.bind, hb]
      · simp [Heap.typeOf, Node.type]
    · rw [if_neg htr]
      refine ⟨bs, hread l none _ fun b h _ htrack => absurd ?_ htr⟩
      have htracked : reg.tracked = true := by
        cases he.shape hg with
        | leaf hleaf => cases (Registry.type_of_find? hreg).symm.trans hleaf
        | map _ _ hm => exact hm
      simp [tracks, htrack, htracked]
  obtain ⟨cs, hobject⟩ := hobject
  have hany := Yields.any he hg hobject
  rw [← hl] at hany
  obtain ⟨_, b', h, hdes, o, rfl, v, hv, hq⟩ := hany.deserialize h₀
  exact ⟨_, h, o, v, b', hdes, hv, hq⟩

/-- **Null is read on a side without a class** that is never null. -/
theorem exists_null_read (he : e.registry.Sound) (hd : 2 ≤ e.config.maxDepth) (h₀ : Heap)
    (hb : e.registry.HasSide b) (hbt : b.type = none) (hnull : b.nullable = false) :
    ∃ bs v h, e.deserialize h₀ bs = .ok (v, h) ∧ ¬h.Honours e.registry v := by
  obtain ⟨type, reg, ser, hreg, hser, hb⟩ := hb
  let Q : Value → Bindings → Heap → Prop := fun v b h =>
    v = none ∧ (e.config.trackRef = true → ∃ w, First (.container type) w b h)
  have hQ : ∀ v, Firm e (Q v) := by
    refine fun v => ⟨fun b h h' hbef hq => ⟨hq.1, fun htr => ?_⟩, fun htr b h hq => ?_⟩
    · obtain ⟨w, hw⟩ := hq.2 htr
      exact ⟨w, (firm_first e _ w).later b h h' hbef hw⟩
    · obtain ⟨w, hw⟩ := hq.2 htr
      exact (firm_first e _ w).first htr b h hw
  obtain ⟨bs, h, o, v, b', hdes, hv, rfl, -⟩ :=
    exists_held_read he hd h₀ hreg hser hb none hbt (by simp) hQ
      fun l side => Yields.null
  refine ⟨bs, some o, h, hdes, fun hh => ?_⟩
  have hadm := (hh.admits .self hv).1 rfl
  rw [hnull] at hadm
  cases hadm

/-- **A container is read on its own side** that has another class, if there may be
    a number. -/
theorem exists_root_read (he : e.registry.Sound) (hd : 2 ≤ e.config.maxDepth) (h₀ : Heap)
    (htr : e.config.trackRef = true) (hb : e.registry.HasSide b) (hbt : b.type = some t)
    (hm : b.nullable = true ∨ ∀ type, t ≠ .leaf type) :
    ∃ bs v h, e.deserialize h₀ bs = .ok (v, h) ∧ ¬h.Honours e.registry v := by
  obtain ⟨type, reg, ser, hreg, hser, hb⟩ := hb
  have hg := he.gives_of_find? hreg hser
  have hty := Registry.type_of_find? hreg
  obtain ⟨c, ser', rfl, hc, -⟩ := hg.named he (hty ▸ hreg) hb hbt
  have hmark : b.nullable = true ∨ e.tracks c = true := by
    refine hm.imp_right fun hleaf => ?_
    cases he.shape hc with
    | leaf ht => exact absurd ht (hleaf _)
    | map _ _ htracked => simp [tracks, htr, htracked]
  obtain ⟨bs, h, o, v, b', hdes, hv, hfirst⟩ :=
    exists_held_read he hd h₀ hreg hser hb (some (c, ser')) hbt
      (by rintro _ _ ⟨⟩; exact hc) (firm_first e (.container type)) fun l side =>
        (Yields.back hmark fun b h hp => by
          obtain ⟨v, hv⟩ := hp htr
          exact (firm_first e _ v).first htr b h hv).imp (fun _ _ hp => hp) (by
            rintro v b h ⟨⟨o, rfl, ho⟩, hp⟩
            obtain ⟨w, p, rfl, hp, hlt, hpt⟩ := hp htr
            cases ho.symm.trans hp
            exact ⟨o, rfl, ho, hlt, hpt⟩)
  refine ⟨bs, some o, h, hdes, fun hh => ?_⟩
  obtain ⟨p, rfl, -, -, hp⟩ := hfirst
  have hadm := (hh.admits .self hv).2 p c.type rfl hbt
  -- then the container would be named by a side of its own
  exact hg.type_ne he (hty ▸ hreg) hb (hbt.trans (by rw [← hadm, hp, ← hty]))

/-! ## Two containers -/

/-- A container is read that holds the first object that has a number. -/
theorem exists_numbered_in (hs : e.registry.Sound) (htr : e.config.trackRef = false)
    (hb : e.registry.HasSide b) (hnull : b.nullable = true) (hbt : b.type = some t) (l : Nat) :
    ∃ bs, Yields e (e.Room (l + 2)) bs (Reading.anyVia e (Reading.data e (l + 2)))
      (fun bs _ => bs.bound = #[]) fun x bs h =>
        ∃ p, x = some p ∧ ∃ v, e.registry.Carries b v h p ∧ First t v bs h := by
  obtain ⟨type, reg, ser, hreg, hser, hb⟩ := hb
  have hg := hs.gives_of_find? hreg hser
  obtain ⟨c, s, rfl, hc, -⟩ := hg.named hs (Registry.type_of_find? hreg ▸ hreg) hb hbt
  obtain ⟨as, hnum⟩ := Yields.numbered hs hc
  obtain ⟨bs, hholds⟩ := Yields.holding hs hreg hser hb (some (c, s)) hbt
    (by rintro _ _ ⟨⟩; exact hc) as
  have hread := hholds (fun b _ => b.bound = #[]) (First c.type)
    ⟨fun _ _ _ _ hp => hp, fun h => by simp [htr] at h⟩ (firm_first e c.type)
    (by rw [hnull]; exact hnum)
  exact ⟨_, Yields.any_of_untracked hs hg htr
    (hread l none (fun b _ => b.bound = #[]) fun _ _ hb => hb)⟩

/-- Then one is read that holds the object of that number. -/
theorem exists_number_in (hs : e.registry.Sound) (htr : e.config.trackRef = false)
    (hb : e.registry.HasSide b) (hnull : b.nullable = true) (hbt : b.type = some t') (l : Nat) :
    ∃ bs, ∀ v, Yields e (e.Room (l + 2)) bs (Reading.anyVia e (Reading.data e (l + 2)))
      (First t v) fun x bs h =>
        ∃ p, x = some p ∧ e.registry.Carries b v h p ∧ First t v bs h := by
  obtain ⟨type, reg, ser, hreg, hser, hb⟩ := hb
  have hg := hs.gives_of_find? hreg hser
  obtain ⟨c, s, rfl, hc, -⟩ := hg.named hs (Registry.type_of_find? hreg ▸ hreg) hb hbt
  obtain ⟨bs, hholds⟩ := Yields.holding hs hreg hser hb (some (c, s)) hbt
    (by rintro _ _ ⟨⟩; exact hc) ([Marker.back.byte] ++ countBytes e.config.native 0)
  refine ⟨countBytes e.config.native (reg.id + 1) ++ bs, fun v => ?_⟩
  have hfirm := firm_first e t v
  have hread := hholds (First t v) (fun w b h => w = v ∧ First t v b h) hfirm
    (fun w => ⟨fun b h h' hbef hp => ⟨hp.1, hfirm.later b h h' hbef hp.2⟩,
      fun h => by simp [htr] at h⟩)
    fun l side => (Yields.back (Or.inl hnull) fun b h ⟨o, _, ho, _⟩ => ⟨o, ho⟩).imp
      (fun _ _ hp => hp) (by
        rintro w b h ⟨⟨o, rfl, ho⟩, p, rfl, hp, hlt, hpt⟩
        cases ho.symm.trans hp
        exact ⟨rfl, o, rfl, ho, hlt, hpt⟩)
  refine (Yields.any_of_untracked hs hg htr (hread l none (First t v) fun b h hv =>
    hfirm.later _ _ _ (h.before_alloc _) hv)).imp (fun _ _ hp => hp) ?_
  rintro x b h ⟨p, rfl, w, hw, rfl, hv⟩
  exact ⟨p, rfl, hw, hv⟩

/-- **An object that was read on a side is read on another once more** if both have a
    class and may be null, and references are not tracked. -/
theorem exists_common_read (he : e.Assembled) (hd : 3 ≤ e.config.maxDepth) (h₀ : Heap)
    (htr : e.config.trackRef = false) (hb : e.registry.HasSide b) (hb' : e.registry.HasSide b')
    (hnull : b.nullable = true) (hnull' : b'.nullable = true) (hbt : b.type = some t)
    (hbt' : b'.type = some t') :
    ∃ bs h o c p p' q, e.deserialize h₀ bs = .ok (some o, h) ∧ h.node o = .container c ∧
      c.entries = [(some p, some p')] ∧ e.registry.Carries b (some q) h p ∧
      e.registry.Carries b' (some q) h p' ∧ h.typeOf q = t := by
  obtain ⟨l, hl⟩ := Nat.exists_eq_add_of_le' hd
  have hs := he.sound
  obtain ⟨bs, hkey⟩ := exists_numbered_in hs htr hb hnull hbt l
  obtain ⟨bs', hvalue⟩ := exists_number_in (t := t) hs htr hb' hnull' hbt' l
  -- both stand in one entry of a container that is bound to nothing
  have hroot := he.gives_linked
  have hboth : ∀ k, Yields e (e.Room (l + 2)) bs' (Reading.anyVia e (Reading.data e (l + 2)))
      (fun bs h => ∃ p, k = some p ∧ ∃ v, e.registry.Carries b v h p ∧ First t v bs h)
      fun x bs h => ∃ p p' v, k = some p ∧ x = some p' ∧ e.registry.Carries b v h p ∧
        e.registry.Carries b' v h p' ∧ First t v bs h := by
    intro k
    have hframed := fun i : ObjId × Value => (hvalue i.2).framed
      (F := fun h => k = some i.1 ∧ e.registry.Carries b i.2 h i.1)
      fun h h' hext hp => ⟨hp.1, hp.2.later fun hlt => hext.node i.1 hlt⟩
    refine (Yields.of_exists fun i => (hframed i).imp (fun _ _ hp => hp) ?_).imp ?_ fun _ _ _ => id
    · rintro x bs h ⟨⟨p', hx, hv', hfirst⟩, hk, hv⟩
      exact ⟨i.1, p', i.2, hk, hx, hv, hv', hfirst⟩
    · rintro bs h ⟨p, hk, v, hv, hfirst⟩
      exact ⟨(p, v), hfirst, hk, hv⟩
  have hany := Yields.any_of_untracked hs hroot htr (Yields.single
    (hs.containerType_eq_ok hroot rfl) hkey hboth none fun _ _ hb => hb)
  rw [← hl] at hany
  obtain ⟨_, b₁, _, hdes, o, rfl, _, _, h, ⟨p, p', _, rfl, rfl, hv, hv', q, rfl, -, hq, hqt⟩, hlt,
    hnode, rfl⟩ := hany.deserialize h₀
  -- neither of the two is the outer container, which is empty until then
  have hkept : ∀ b r, e.registry.Carries b (some q) h r →
      e.registry.Carries b (some q) (h.insert o (some p) (some p')).2 r := by
    intro b r hr
    refine hr.later fun _ => Heap.node_insert_of_ne _ _ ?_
    rintro rfl
    obtain ⟨ct, reg, hct, -, x, hx, -⟩ := hr
    cases hct.symm.trans hnode
    simp at hx
  obtain ⟨ct₀, hct₀, -, hentries⟩ := Heap.exists_single hnode hlt (some p) (some p')
  refine ⟨_, _, o, ct₀, p, p', q, hdes, hct₀, hentries, hkept b p hv, hkept b' p' hv', ?_⟩
  rw [(h.before_insert o _ _).type q hq, hqt]

/-- **Then it is read on one of another class.** -/
theorem exists_stranger_read (he : e.Assembled) (hd : 3 ≤ e.config.maxDepth) (h₀ : Heap)
    (htr : e.config.trackRef = false) (hb : e.registry.HasSide b) (hb' : e.registry.HasSide b')
    (hnull : b.nullable = true) (hnull' : b'.nullable = true) (hbt : b.type = some t)
    (hbt' : b'.type = some t') (hne : t ≠ t') :
    ∃ bs v h, e.deserialize h₀ bs = .ok (v, h) ∧ ¬h.Honours e.registry v := by
  obtain ⟨bs, h, o, c, p, p', q, hdes, hc, hentries, -, hv, hq⟩ :=
    exists_common_read he hd h₀ htr hb hb' hnull hnull' hbt hbt'
  refine ⟨bs, some o, h, hdes, fun hh => hne ?_⟩
  have hleads : h.Leads (some o) p' :=
    .part ((Heap.mem_parts_container hc).2 ⟨(some p, some p'), by simp [hentries], Or.inr rfl⟩)
      .self
  rw [← hq]
  exact (hh.admits hleads hv).2 q t' rfl hbt'

/-! ## All engines -/

/-- **What is read honours the bindings, and is not refused when it is written,
    exactly if the engine is guarded.** -/
theorem honours_iff_guarded (he : e.Assembled) :
    (e.Guarded → ∀ h₀ bs v h, e.deserialize h₀ bs = .ok (v, h) →
      h.Honours e.registry v ∧ ∀ err, e.serialize h v = .error err → ¬err.Refuses) ∧
    (3 ≤ e.config.maxDepth → (∀ h₀ bs v h, e.deserialize h₀ bs = .ok (v, h) →
      h.Honours e.registry v) → e.Guarded) := by
  refine ⟨fun hg h₀ bs v h hx => ⟨honours_of_guarded he.sound hg hx, fun err hs =>
    not_refuses_of_guarded he.sound hg hx hs⟩, fun hd hall => ?_⟩
  have hno : ¬∃ bs v h, e.deserialize .empty bs = .ok (v, h) ∧ ¬h.Honours e.registry v := by
    rintro ⟨bs, v, h, hx, hn⟩
    exact hn (hall _ bs v h hx)
  have hd' : 2 ≤ e.config.maxDepth := Nat.le_of_succ_le hd
  constructor
  · intro b hb hbt
    by_contra hnull
    exact hno (exists_null_read he.sound hd' _ hb hbt (Bool.eq_false_iff.2 hnull))
  · intro htr b t hb hbt
    constructor
    · by_contra hnull
      exact hno (exists_root_read he.sound hd' _ htr hb hbt
        (Or.inl (Bool.eq_true_of_not_eq_false hnull)))
    · by_contra hleaf
      exact hno (exists_root_read he.sound hd' _ htr hb hbt
        (Or.inr fun type ht => hleaf ⟨type, ht⟩))
  · intro htr b b' t t' hb hb' hnull hnull' hbt hbt'
    by_contra hne
    exact hno (exists_stranger_read he hd _ htr hb hb' hnull hnull' hbt hbt' hne)

/-- It is enough to look at all that is registered. -/
theorem guarded_of_sides (hc : ∀ b ∈ e.registry.sides, b.type = none → b.nullable = true)
    (ht : e.config.trackRef = true → ∀ b ∈ e.registry.sides, ∀ t, b.type = some t →
      b.nullable = false ∧ ∃ type, t = .leaf type)
    (hu : e.config.trackRef = false → ∀ b ∈ e.registry.sides, ∀ b' ∈ e.registry.sides,
      b.nullable = true → b'.nullable = true → ∀ t t', b.type = some t → b'.type = some t' →
        t = t') : e.Guarded where
  classless b hb := hc b hb.mem_sides
  tracked htr b t hb := ht htr b hb.mem_sides t
  untracked htr b b' t t' hb hb' hnull hnull' :=
    hu htr b hb.mem_sides b' hb'.mem_sides hnull hnull' t t'

theorem guarded_numberKeys : numberKeys.Guarded := by
  refine guarded_of_sides (by decide) (fun h => by cases h) fun _ b hb b' _ hnull _ t t' hbt _ => ?_
  have hall : ∀ b ∈ numberKeys.registry.sides, b.nullable = true → b.type = none := by decide
  rw [hall b hb hnull] at hbt
  cases hbt

/-- An engine with a type of containers whose values are never null. -/
def fullValues : Engine :=
  { registry := Registry.builtins.insert
      (.ofBinding (.named 0) 40 { value := { nullable := false } }) }

theorem assembled_fullValues : fullValues.Assembled :=
  .registerMapWith (.start {}) (by decide) ⟨rfl, rfl⟩ (rfl : ({} : Engine).registerMapWith 40
    (.named 0) { value := { nullable := false } } = .ok fullValues)

/-- A container of that type that maps null to null. -/
def nullValue : Heap := ((Heap.empty.alloc (.container (.empty (.named 0)))).2.insert 0 none none).2

/-- **Null is read on a side that is never null**, and is refused when it is written. -/
theorem null_read_of_fullValues :
    fullValues.deserialize .empty [2, 41, 1, 0, 0] = .ok (some 0, nullValue) ∧
      ¬nullValue.Honours fullValues.registry (some 0) ∧
      ∃ err, fullValues.serialize nullValue (some 0) = .error err ∧ err.Refuses := by
  refine ⟨by decide +kernel, fun hh => ?_, .nullEntry .value, by decide +kernel, Or.inl rfl⟩
  have hadm := (hh 0 _ _ .self rfl rfl (none, none) (List.mem_singleton_self _)).2.1 rfl
  cases hadm

theorem honours_iff_guarded_numberKeys :
    (∃ v h, numberKeys.deserialize .empty [2, 41, 1, 14, 0] = .ok (v, h) ∧
      h.Honours numberKeys.registry v) ∧
    ¬∀ h₀ bs v h, fullValues.deserialize h₀ bs = .ok (v, h) → h.Honours fullValues.registry v := by
  constructor
  · have hx : numberKeys.deserialize .empty [2, 41, 1, 14, 0] = .ok (some 0,
        (((Heap.empty.alloc (.container (.empty (.named 0)))).2.alloc (.leaf (.i32 7))).2.insert 0
          (some 1) none).2) := by decide +kernel
    exact ⟨_, _, hx,
      ((honours_iff_guarded assembled_numberKeys).1 guarded_numberKeys _ _ _ _ hx).1⟩
  · intro hall
    have hg := (honours_iff_guarded assembled_fullValues).2 (by decide) hall
    have hgives := @Registry.Gives.map fullValues.registry (.named 0) _ none none rfl rfl rfl
      (by simp) (by simp)
    have hnull := hg.classless { nullable := false } ⟨.named 0, _, _, rfl,
      assembled_fullValues.sound.serializer_eq_ok hgives, Or.inr rfl⟩ rfl
    cases hnull

end Engine

end GraphWire

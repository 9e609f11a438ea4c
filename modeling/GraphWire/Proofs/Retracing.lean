/-
  Graphs are retraced from their bytes.

  Two writings that come to the same bytes go the same ways through the two graphs
  (`Tale.Tells`): so they do for an object if they do for those nested in it, and by
  induction on the levels however deep (`tellsNested_data`).

  * `Tale.TellsNested.any` and others: one step for each way of writing;
  * `Engine.matching_of_serialize`: values with one stream match, one to one if
    references are tracked.
-/
import GraphWire.Proofs.Renaming
import GraphWire.Proofs.Telling

namespace GraphWire

namespace Tale

/-- Whether two writings of nested objects that come to the same bytes have written
    objects that match. -/
structure TellsNested (τ : Tale) (wn wn' : ObjId → Serializer → Writing Unit) : Prop where
  tells : ∀ pairs o p c ser, τ.e.registry.Gives c ser → τ.left.typeOf o = c.type →
    τ.right.typeOf p = c.type → τ.left.Leads τ.v o → τ.right.Leads τ.w p →
    τ.Tells pairs (wn o ser) (wn' p ser) fun pairs' => PairMatched τ.left τ.right pairs' (o, p)
  left : ∃ rn, MirrorsNested τ.e τ.left wn rn
  right : ∃ rn, MirrorsNested τ.e τ.right wn' rn

/-- Whether a value is one of those that a graph is made of. -/
def Within (h : Heap) (v x : Value) : Prop := ∀ o, x = some o → h.Leads v o

theorem entries_within {h : Heap} {v : Value} {o : ObjId} {c : Container}
    (hc : h.node o = .container c) (ho : h.Leads v o) :
    ∀ i ∈ c.entries, Within h v i.1 ∧ Within h v i.2 := by
  have hpart : ∀ x ∈ (h.node o).parts, Within h v x := by
    rintro x hx q rfl
    exact ho.trans (.part hx .self)
  exact fun i hi => ⟨hpart _ (Heap.fst_mem_parts hc hi), hpart _ (Heap.snd_mem_parts hc hi)⟩

variable {τ : Tale} {pairs : List (ObjId × ObjId)} {s t s' t' : WriteState} {v w : Value}
  {o p : ObjId} {c : ClassInfo} {ser : Serializer} {wn wn' : ObjId → Serializer → Writing Unit}

/-- Objects that are written as one number are paired. -/
theorem Paired.mem_of_back (hst : τ.Paired pairs s t) (hτ : τ.Sound)
    (hr : τ.e.config.trackRef = true) {i j : Nat} (hns : s.written.number? o = some i)
    (hnt : t.written.number? p = some j)
    (hs : (s.out.append (Marker.back.byte :: countBytes s.out.native i)).bytes <+: τ.all)
    (ht : (t.out.append (Marker.back.byte :: countBytes t.out.native j)).bytes <+: τ.all) :
    i = j ∧ (o, p) ∈ pairs := by
  obtain ⟨hws, hwt⟩ := hst.written hr
  unfold Written.number? at hns hnt
  rw [hws] at hns
  rw [hwt] at hnt
  obtain ⟨hi, ho, -⟩ := List.idxOf?_eq_some_iff.1 hns
  obtain ⟨hj, hp, -⟩ := List.idxOf?_eq_some_iff.1 hnt
  rw [List.length_map] at hi hj
  rw [List.getElem_map] at ho hp
  have hback : ∀ (out : Output) n, out.append (Marker.back.byte :: countBytes out.native n) =
      (out.append [Marker.back.byte]).append (countBytes out.native n) := by
    intro out n
    rw [Output.append_append]
    rfl
  rw [hback] at hs ht
  obtain rfl := (hst.put (.i8 Marker.back.code)).count_unique (hst.number_lt hτ hr hi)
    (hst.number_lt hτ hr hj) hs ht
  have hpair : pairs[i] = (o, p) := Prod.ext ho hp
  exact ⟨rfl, hpair ▸ List.getElem_mem hi⟩

namespace TellsNested

/-! ## Objects that are met for the first time, and again -/

section
variable (hn : τ.TellsNested wn wn') (hg : τ.e.registry.Gives c ser)
  (ho : τ.left.typeOf o = c.type) (hp : τ.right.typeOf p = c.type)
  (hlo : τ.left.Leads τ.v o) (hlp : τ.right.Leads τ.w p)
include hn hg ho hp hlo hlp

/-- Containers that are paired before they are written. -/
theorem paired (hst : τ.Paired (pairs ++ [(o, p)]) s t) (hs : wn o ser s = .ok () s')
    (ht : wn' p ser t = .ok () t') (hs' : s'.out.bytes <+: τ.all) (ht' : t'.out.bytes <+: τ.all) :
    ∃ pairs', PairsGrow τ.left τ.right pairs pairs' ∧ τ.Paired pairs' s' t' ∧
      Stands τ.left τ.right pairs' (some o) (some p) := by
  obtain ⟨pairs', hgrow, hpaired, hmatch⟩ :=
    hn.tells _ o p c ser hg ho hp hlo hlp s t s' t' hst hs ht hs' ht'
  have hmem : (o, p) ∈ pairs' := hgrow.subset (by simp)
  refine ⟨pairs', ⟨List.Subset.trans (List.subset_append_left _ _) hgrow.subset, fun i hi => ?_⟩,
    hpaired, .pair hmem⟩
  rcases hgrow.new i hi with hi | hi
  · rcases List.mem_append.1 hi with hi | hi
    · exact Or.inl hi
    · rw [List.mem_singleton.1 hi]
      exact Or.inr hmatch
  · exact Or.inr hi

theorem untracked (hτ : τ.Sound) (htr : τ.e.tracks c = false) :
    τ.Tells pairs (wn o ser) (wn' p ser) fun pairs' =>
      Stands τ.left τ.right pairs' (some o) (some p) := by
  cases hτ.registry.shape hg with
  | leaf htype =>
    refine (hn.tells pairs o p c ser hg ho hp hlo hlp).post fun pairs' _ hm => ?_
    cases hm with
    | leaf ha ha' => exact .leaf ha ha'
    | container hc => simp [Heap.typeOf, hc, Node.type, htype] at ho
  | map htype _ hct =>
    intro s t s' t' hst hs ht hs' ht'
    obtain ⟨ct, hc, -⟩ := Heap.exists_container (ho.trans htype)
    have hnot : τ.e.config.trackRef ≠ true := by
      intro h
      simp [Engine.tracks, hct, h] at htr
    exact hn.paired hg ho hp hlo hlp
      (hst.pair ⟨hlo, ct, hc⟩ hst.out rfl rfl fun h => absurd h hnot) hs ht hs' ht'

theorem tracked (hτ : τ.Sound) (htr : τ.e.tracks c = true) :
    τ.Tells pairs (Writing.unlessWritten wn true o ser) (Writing.unlessWritten wn' true p ser)
      fun pairs' => Stands τ.left τ.right pairs' (some o) (some p) := by
  intro s t s' t' hst hs ht hs' ht'
  have hr := Engine.trackRef_of_tracks htr
  obtain ⟨rn, hleft⟩ := hn.left
  obtain ⟨rn', hright⟩ := hn.right
  obtain ⟨again, s₁, hs₁, hs⟩ := bind_eq_ok.1 hs
  obtain ⟨again', t₁, ht₁, ht⟩ := bind_eq_ok.1 ht
  cases hns : s.written.number? o with
  | some i =>
    rw [announce_of_some hns] at hs₁
    cases hs₁
    cases hs
    cases hnt : t.written.number? p with
    | some j =>
      rw [announce_of_some hnt] at ht₁
      cases ht₁
      cases ht
      obtain ⟨rfl, hmem⟩ := hst.mem_of_back hτ hr hns hnt hs' ht'
      exact ⟨pairs, .refl, { hst with out := by rw [hst.out] }, .pair hmem⟩
    | none =>
      rw [announce_of_none hnt] at ht₁
      cases ht₁
      obtain ⟨bs, hout, -⟩ := hright p c ser _ _ hg hp ht
      rw [hout, Output.append_append] at ht'
      cases hst.marker_unique hs' ht'
  | none =>
    rw [announce_of_none hns] at hs₁
    cases hs₁
    obtain ⟨bs, hout, -⟩ := hleft o c ser _ _ hg ho hs
    cases hnt : t.written.number? p with
    | some j =>
      rw [announce_of_some hnt] at ht₁
      cases ht₁
      cases ht
      rw [hout, Output.append_append] at hs'
      cases hst.marker_unique hs' ht'
    | none =>
      rw [announce_of_none hnt] at ht₁
      cases ht₁
      cases hτ.registry.shape hg with
      | leaf _ _ hnot => simp [Engine.tracks, hnot] at htr
      | map htype =>
        obtain ⟨ct, hc, -⟩ := Heap.exists_container (ho.trans htype)
        have hnew : τ.Paired (pairs ++ [(o, p)])
            { s with
              out := s.out.append [Marker.fresh.byte]
              written := ⟨s.written.objects ++ [o]⟩ }
            { t with
              out := t.out.append [Marker.fresh.byte]
              written := ⟨t.written.objects ++ [p]⟩ } :=
          hst.pair ⟨hlo, ct, hc⟩ (by rw [hst.out]) rfl rfl fun _ =>
            ⟨rfl, List.idxOf?_eq_none_iff.1 hns, rfl, List.idxOf?_eq_none_iff.1 hnt⟩
        exact hn.paired hg ho hp hlo hlp hnew hs ht hs' ht'

theorem unlessWritten (hτ : τ.Sound) :
    τ.Tells pairs (Writing.unlessWritten wn (τ.e.tracks c) o ser)
      (Writing.unlessWritten wn' (τ.e.tracks c) p ser)
      fun pairs' => Stands τ.left τ.right pairs' (some o) (some p) := by
  cases htr : τ.e.tracks c with
  | true => exact hn.tracked hg ho hp hlo hlp hτ htr
  | false => exact hn.untracked hg ho hp hlo hlp hτ htr

end

/-! ## Values -/

variable (hn : τ.TellsNested wn wn') (hτ : τ.Sound)
include hn hτ

theorem object (hg : τ.e.registry.Gives c ser) (hv : Within τ.left τ.v v)
    (hw : Within τ.right τ.w w) :
    τ.Tells pairs (Writing.objectVia τ.e τ.left wn v c ser)
      (Writing.objectVia τ.e τ.right wn' w c ser)
      fun pairs' => Stands τ.left τ.right pairs' v w := by
  cases v with
  | none =>
    intro s t s' t' _ hs
    cases hs
  | some o =>
    cases w with
    | none =>
      intro s t s' t' _ _ ht
      cases ht
    | some p =>
      exact .attempt fun _ _ ho hp => hn.unlessWritten hg (Heap.typeOf_of_checkClass ho)
        (Heap.typeOf_of_checkClass hp) (hv o rfl) (hw p rfl) hτ

theorem nullable (hg : τ.e.registry.Gives c ser) (hv : Within τ.left τ.v v)
    (hw : Within τ.right τ.w w) :
    τ.Tells pairs (Writing.nullableVia τ.e τ.left wn v c ser)
      (Writing.nullableVia τ.e τ.right wn' w c ser)
      fun pairs' => Stands τ.left τ.right pairs' v w := by
  obtain ⟨rn, hleft⟩ := hn.left
  obtain ⟨rn', hright⟩ := hn.right
  cases v with
  | none =>
    cases w with
    | none => exact .put_last .null
    | some p =>
      intro s t s' t' hst hs ht hs' ht'
      obtain ⟨m, bs, hm, hout⟩ := hright.marker_ne_null hg ht
      cases hs
      rw [hout] at ht'
      have hnull : (s.out.append [Marker.null.byte]).bytes <+: τ.all := hs'
      exact absurd (hst.marker_unique hnull ht').symm hm
  | some o =>
    cases w with
    | none =>
      intro s t s' t' hst hs ht hs' ht'
      obtain ⟨m, bs, hm, hout⟩ := hleft.marker_ne_null hg hs
      cases ht
      rw [hout] at hs'
      have hnull : (t.out.append [Marker.null.byte]).bytes <+: τ.all := ht'
      exact absurd (hst.marker_unique hs' hnull) hm
    | some p =>
      refine .attempt fun _ _ ho hp => ?_
      have ho := Heap.typeOf_of_checkClass ho
      have hp := Heap.typeOf_of_checkClass hp
      cases htr : τ.e.tracks c with
      | true => exact hn.tracked hg ho hp (hv o rfl) (hw p rfl) hτ htr
      | false => exact .put (hn.untracked hg ho hp (hv o rfl) (hw p rfl) hτ htr)

theorem any (hv : Within τ.left τ.v v) (hw : Within τ.right τ.w w) :
    τ.Tells pairs (Writing.anyVia τ.e τ.left wn v) (Writing.anyVia τ.e τ.right wn' w)
      fun pairs' => Stands τ.left τ.right pairs' v w := by
  obtain ⟨rn, hleft⟩ := hn.left
  obtain ⟨rn', hright⟩ := hn.right
  have he := hτ.registry
  cases v with
  | none =>
    cases w with
    | none => exact .put_last .null
    | some p =>
      intro s t s' t' hst hs ht hs' ht'
      obtain ⟨c, ser, hg, hp, -, hid, -, ht⟩ := Writing.anyVia_eq_ok he ht
      have hgrow := (hright.unlessWritten he hg hp).appends _ _ ht
      cases hs
      cases hst.count_unique (by decide) hid hs' (hgrow.trans ht')
  | some o =>
    cases w with
    | none =>
      intro s t s' t' hst hs ht hs' ht'
      obtain ⟨c, ser, hg, ho, -, hid, -, hs⟩ := Writing.anyVia_eq_ok he hs
      have hgrow := (hleft.unlessWritten he hg ho).appends _ _ hs
      cases ht
      cases hst.count_unique hid (by decide) (hgrow.trans hs') ht'
    | some p =>
      intro s t s' t' hst hs ht hs' ht'
      obtain ⟨c, ser, hg, ho, hc, hid, hser, hs⟩ := Writing.anyVia_eq_ok he hs
      obtain ⟨c', ser', hg', hp, hc', hid', hser', ht⟩ := Writing.anyVia_eq_ok he ht
      have hgrow := (hleft.unlessWritten he hg ho).appends _ _ hs
      have hgrow' := (hright.unlessWritten he hg' hp).appends _ _ ht
      have hids : c.id = c'.id :=
        Nat.succ_injective (hst.count_unique hid hid' (hgrow.trans hs') (hgrow'.trans ht'))
      obtain rfl : c = c' := Except.ok.inj (hc.symm.trans (hids ▸ hc'))
      obtain rfl : ser = ser' := Except.ok.inj (hser.symm.trans hser')
      exact hn.unlessWritten hg ho hp (hv o rfl) (hw p rfl) hτ _ _ s' t' (hst.put _) hs ht hs' ht'

theorem side {slot : Slot}
    (hg : ∀ c ser, slot.target = some (c, ser) → τ.e.registry.Gives c ser)
    (hv : Within τ.left τ.v v) (hw : Within τ.right τ.w w) :
    τ.Tells pairs (Writing.sideVia τ.e τ.left wn slot v) (Writing.sideVia τ.e τ.right wn' slot w)
      fun pairs' => Stands τ.left τ.right pairs' v w := by
  unfold Writing.sideVia
  cases ht : slot.target with
  | none => exact hn.any hτ hv hw
  | some target =>
    obtain ⟨c, ser⟩ := target
    cases slot.nullable with
    | true => exact hn.nullable hτ (hg c ser ht) hv hw
    | false => exact hn.object hτ (hg c ser ht) hv hw

/-! ## Containers -/

theorem entries {keySlot valueSlot : Slot}
    (hk : ∀ c ser, keySlot.target = some (c, ser) → τ.e.registry.Gives c ser)
    (hx : ∀ c ser, valueSlot.target = some (c, ser) → τ.e.registry.Gives c ser)
    (keyType : Declared) {l l' : List Entry} (hlen : l.length = l'.length)
    (hl : ∀ i ∈ l, Within τ.left τ.v i.1 ∧ Within τ.left τ.v i.2)
    (hl' : ∀ i ∈ l', Within τ.right τ.w i.1 ∧ Within τ.right τ.w i.2) :
    τ.Tells pairs (Writing.entriesVia τ.e τ.left wn keySlot valueSlot keyType l)
      (Writing.entriesVia τ.e τ.right wn' keySlot valueSlot keyType l')
      fun pairs' => List.Forall₂ (fun i i' => Stands τ.left τ.right pairs' i.1 i'.1 ∧
        Stands τ.left τ.right pairs' i.2 i'.2) l l' := by
  obtain ⟨rn, hleft⟩ := hn.left
  obtain ⟨rn', hright⟩ := hn.right
  have he := hτ.registry
  induction l generalizing l' pairs with
  | nil =>
    obtain rfl := List.length_eq_zero_iff.1 hlen.symm
    exact .done .nil
  | cons i l ih =>
    obtain ⟨i', l', rfl⟩ := List.exists_cons_of_length_eq_add_one hlen.symm
    obtain ⟨k, x⟩ := i
    obtain ⟨k', x'⟩ := i'
    obtain ⟨⟨hki, hxi⟩, hl⟩ := List.forall_mem_cons.1 hl
    obtain ⟨⟨hki', hxi'⟩, hl'⟩ := List.forall_mem_cons.1 hl'
    refine .attempt fun _ _ _ _ => .attempt fun _ _ _ _ => ?_
    have hrest := hleft.appends_entries he hk hx keyType l
    have hrest' := hright.appends_entries he hk hx keyType l'
    refine (hn.side hτ hk hki hki').declaring.bind ((hleft.side he hx).appends.bind hrest)
      ((hright.side he hx).appends.bind hrest') fun pairs₁ _ hkk => ?_
    refine (hn.side hτ hx hxi hxi').bind hrest hrest' fun pairs₂ hg₂ hxx => ?_
    refine (ih (Nat.succ.inj hlen) hl hl').post fun pairs' hg' hll => ?_
    exact .cons ⟨hkk.mono (List.Subset.trans hg₂.subset hg'.subset), hxx.mono hg'.subset⟩ hll

theorem map {key value : SideSetup Serializer} {type : ContainerType}
    (hk : τ.e.registry.SideGives key) (hx : τ.e.registry.SideGives value)
    (ho : τ.left.typeOf o = .container type) (hp : τ.right.typeOf p = .container type)
    (hlo : τ.left.Leads τ.v o) (hlp : τ.right.Leads τ.w p) :
    τ.Tells pairs (Writing.mapVia τ.e τ.left wn key value o)
      (Writing.mapVia τ.e τ.right wn' key value p)
      fun pairs' => PairMatched τ.left τ.right pairs' (o, p) := by
  intro s t s' t' hst hs ht hs' ht'
  obtain ⟨rn, hleft⟩ := hn.left
  obtain ⟨rn', hright⟩ := hn.right
  have he := hτ.registry
  obtain ⟨d, hd, rfl⟩ := Heap.exists_container ho
  obtain ⟨d', hd', htype⟩ := Heap.exists_container hp
  obtain ⟨keySlot, valueSlot, keyType, s₁, hslots, hs₁, rfl⟩ := Writing.mapVia_eq_ok hd hs
  obtain ⟨keySlot', valueSlot', keyType', t₁, hslots', ht₁, rfl⟩ := Writing.mapVia_eq_ok hd' ht
  -- both are in the same scope, so that their entries stand in the same slots
  rw [← hst.scope, hslots] at hslots'
  cases hslots'
  obtain ⟨hgk, hgv⟩ := gives_of_resolveSlots he hk hx hslots
  have hsmall := hτ.fits.small o hlo
  have hsmall' := hτ.small p hlp
  rw [hd] at hsmall
  rw [hd'] at hsmall'
  have hlen : d.entries.length = d'.entries.length := hst.count_unique hsmall hsmall'
    ((hleft.appends_entries he hgk hgv keyType d.entries _ _ hs₁).trans hs')
    ((hright.appends_entries he hgk hgv keyType d'.entries _ _ ht₁).trans ht')
  rw [← hlen] at ht₁
  obtain ⟨pairs', hgrow, hpaired, hent⟩ := hn.entries hτ hgk hgv keyType hlen
    (entries_within hd hlo) (entries_within hd' hlp) _ _ s₁ t₁
    (hst.put (.var .u32 (BitVec.ofNat _ d.entries.length))) hs₁ ht₁ hs' ht'
  exact ⟨pairs', hgrow, hpaired.inScope _, .container hd hd' htype hent⟩

/-! ## Bodies -/

omit hn in
theorem leaf {type : LeafType} (hlo : τ.left.Leads τ.v o) (hlp : τ.right.Leads τ.w p) :
    τ.Tells pairs (Writing.bodyVia τ.e τ.left wn o (.leaf type))
      (Writing.bodyVia τ.e τ.right wn' p (.leaf type))
      fun pairs' => PairMatched τ.left τ.right pairs' (o, p) := by
  intro s t s' t' hst hs ht hs' ht'
  obtain ⟨a, ha, rfl, rfl⟩ := Writing.bodyVia_leaf_eq_ok hs
  obtain ⟨b, hb, hab, rfl⟩ := Writing.bodyVia_leaf_eq_ok ht
  have hsmall := hτ.fits.small o hlo
  have hsmall' := hτ.small p hlp
  rw [ha] at hsmall
  rw [hb] at hsmall'
  have hout : (t.out.put b.toItem).bytes <+: τ.all := ht'
  rw [← hst.out] at hout
  obtain rfl := leaf_unique hab.symm hsmall hsmall' hs' hout
  exact ⟨pairs, .refl, hst.put _, .leaf ha hb⟩

theorem body (hg : τ.e.registry.Gives c ser) (ho : τ.left.typeOf o = c.type)
    (hp : τ.right.typeOf p = c.type) (hlo : τ.left.Leads τ.v o) (hlp : τ.right.Leads τ.w p) :
    τ.Tells pairs (Writing.bodyVia τ.e τ.left wn o ser) (Writing.bodyVia τ.e τ.right wn' p ser)
      fun pairs' => PairMatched τ.left τ.right pairs' (o, p) := by
  cases hτ.registry.shape hg with
  | leaf _ hser =>
    subst hser
    exact leaf hτ hlo hlp
  | map htype hser _ _ hk hx =>
    subst hser
    exact hn.map hτ hk hx (ho.trans htype) (hp.trans htype) hlo hlp

end TellsNested

/-! ## All levels -/

/-- **Nested objects are told by their bytes**, however deep. -/
theorem tellsNested_data (hτ : τ.Sound) (levels : Nat) :
    τ.TellsNested (Writing.data τ.e τ.left levels) (Writing.data τ.e τ.right levels) where
  tells := by
    induction levels with
    | zero =>
      intro pairs o p c ser _ _ _ _ _ s t s' t' _ hs
      cases hs
    | succ levels ih =>
      intro pairs o p c ser hg ho hp hlo hlp
      have hn : τ.TellsNested (Writing.data τ.e τ.left levels) (Writing.data τ.e τ.right levels) :=
        ⟨ih, ⟨_, mirrorsNested_data hτ.registry _ _⟩, ⟨_, mirrorsNested_data hτ.registry _ _⟩⟩
      exact (hn.body hτ hg ho hp hlo hlp).descend
  left := ⟨_, mirrorsNested_data hτ.registry _ _⟩
  right := ⟨_, mirrorsNested_data hτ.registry _ _⟩

/-- **A value is told by its bytes.** -/
theorem tells_any (hτ : τ.Sound) :
    τ.Tells pairs (Writing.any τ.e τ.left τ.v) (Writing.any τ.e τ.right τ.w)
      fun pairs' => Stands τ.left τ.right pairs' τ.v τ.w := by
  intro s t s' t' hst hs ht hs' ht'
  have hs : Writing.anyVia τ.e τ.left
    (Writing.data τ.e τ.left (τ.e.config.maxDepth - s.scope.depth)) τ.v s = .ok () s' := hs
  rw [hst.scope] at hs
  refine (tellsNested_data hτ _).any hτ ?_ ?_ s t s' t' hst hs ht hs' ht'
  · rintro o ho
    exact ho ▸ .self
  · rintro o ho
    exact ho ▸ .self

end Tale

/-! ## Streams -/

namespace Engine

variable {e : Engine} {h h' : Heap} {v w : Value} {bs : Bytes}

/-- What stands for one another matches if all pairs do, one to one if they are
    numbered. -/
theorem twinned_of_paired {τ : Tale} {pairs : List (ObjId × ObjId)} {s t : WriteState}
    (hst : τ.Paired pairs s t) (hm : ∀ i ∈ pairs, PairMatched τ.left τ.right pairs i) :
    τ.e.Twinned τ.left τ.right (Stands τ.left τ.right pairs) := by
  have hmatch : τ.left.Matching τ.right (Stands τ.left τ.right pairs) := by
    intro v w hvw
    cases hvw with
    | null => exact .null
    | leaf ha ha' => exact .leaf ha ha'
    | pair hmem => exact hm _ hmem
  have hmem : ∀ {o p}, Stands τ.left τ.right pairs (some o) (some p) →
      (∃ c, τ.left.node o = .container c) → (o, p) ∈ pairs := by
    rintro o p hop ⟨c, hc⟩
    cases hop with
    | leaf ha => cases hc.symm.trans ha
    | pair hmem => exact hmem
  refine ⟨hmatch, fun htr o p o' p' hop hop' ho => ?_⟩
  obtain ⟨hleft, hright⟩ := hst.nodup htr
  constructor
  · rintro rfl
    exact congrArg Prod.snd (List.inj_on_of_nodup_map hleft (hmem hop ho) (hmem hop' ho) rfl)
  · rintro rfl
    obtain ⟨c, hc⟩ := ho
    obtain ⟨c', hc', -⟩ := hmatch.container hop hc
    obtain ⟨d, hd, -⟩ := hmatch.swap.container hop' hc'
    exact congrArg Prod.fst
      (List.inj_on_of_nodup_map hright (hmem hop ⟨c, hc⟩) (hmem hop' ⟨d, hd⟩) rfl)

/-- The header says whether a stream holds null. -/
theorem headerByte_ne_of_any {o : ObjId} {s' : WriteState} (he : e.registry.Sound)
    (hx : Writing.any e h (some o)
      (.start ((Output.empty e.config.native).append [e.headerByte false])) = .ok () s') :
    s'.out.bytes ≠ [e.headerByte true] := by
  intro hbytes
  have hprefix := (mirrors_any he h (some o)).appends _ _ hx
  rw [hbytes] at hprefix
  cases ((reads_header e.config.native false).unique (reads_header e.config.native true) hprefix
    (List.prefix_refl _)).1

/-- **Values with one stream match**, one to one if references are tracked. -/
theorem matching_of_serialize (he : e.registry.Sound) (hv : e.Fits h v) (hw : h'.Small w)
    (hs : e.serialize h v = .ok bs) (ht : e.serialize h' w = .ok bs) :
    ∃ R, e.Twinned h h' R ∧ R v w := by
  let τ : Tale := ⟨e, h, h', v, w, bs⟩
  have hτ : τ.Sound := ⟨he, hv, hw⟩
  have hstart : ∀ out, τ.Paired [] (.start out) (.start out) := fun out =>
    ⟨rfl, rfl, fun _ => ⟨rfl, rfl⟩, fun _ => ⟨.nil, .nil⟩, by simp⟩
  cases v with
  | none =>
    cases w with
    | none => exact ⟨_, twinned_of_paired (hstart (.empty e.config.native)) (by simp), .null⟩
    | some p =>
      cases (e.serialize_none h).symm.trans hs
      obtain ⟨t', ht, hbytes⟩ := any_of_serialize ht
      exact absurd hbytes (headerByte_ne_of_any he ht)
  | some o =>
    cases w with
    | none =>
      cases (e.serialize_none h').symm.trans ht
      obtain ⟨s', hs, hbytes⟩ := any_of_serialize hs
      exact absurd hbytes (headerByte_ne_of_any he hs)
    | some p =>
      obtain ⟨s', hs, hbytes⟩ := any_of_serialize hs
      obtain ⟨t', ht, hbytes'⟩ := any_of_serialize ht
      obtain ⟨pairs, hgrow, hpaired, hroot⟩ := Tale.tells_any hτ _ _ s' t' (hstart _) hs ht
        (hbytes ▸ List.prefix_refl _) (hbytes' ▸ List.prefix_refl _)
      refine ⟨_, twinned_of_paired hpaired fun i hi => ?_, hroot⟩
      exact (hgrow.new i hi).resolve_left List.not_mem_nil

end Engine

end GraphWire

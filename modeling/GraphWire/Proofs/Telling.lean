/-
  What a stream tells.

  Two writings that come to the same bytes have written values that match, even if
  all that is known is that the bytes of both begin some bytes.  No item begins another
  of its kind (`Scan.Reads.unique`), so both have made the same choices all the way; the
  containers that they have come to at the same points are paired, and as soon as all
  entries of a pair are written its containers match (`Stands`).

  * `Tale.Paired`: two writings at the same point, with the pairs so far;
  * `Tale.Tells`: what two writings from there on tell of the pairs, with a rule for each
    way to compose them.
-/
import GraphWire.Proofs.RoundTrip
import GraphWire.Proofs.Unfolding

namespace GraphWire

variable {α β : Type}

/-! ## Items -/

/-- **No item begins another of its kind.** -/
theorem Scan.Reads.unique {native : Bool} {x : Scan α} {bs cs ahead : Bytes} {a b : α}
    (hx : Scan.Reads native x bs a) (hy : Scan.Reads native x cs b) (hbs : bs <+: ahead)
    (hcs : cs <+: ahead) : a = b ∧ bs = cs := by
  let i := (Input.ofBytes ahead).withLayout native
  have hi : EStateM.Result.ok a (i.advance bs.length) = .ok b (i.advance cs.length) :=
    (hx i rfl rfl hbs).symm.trans (hy i rfl rfl hcs)
  have hlen : bs.length = cs.length := by
    have hpos : (i.advance bs.length).position = (i.advance cs.length).position := by
      injection hi with _ hi
      rw [hi]
    simpa [Input.advance, i, Input.withLayout, Input.ofBytes] using hpos
  refine ⟨by injection hi, ?_⟩
  rw [List.prefix_iff_eq_take.1 hbs, List.prefix_iff_eq_take.1 hcs, hlen]

theorem Output.ahead_of_append {out : Output} {bs all : Bytes} (h : (out.append bs).bytes <+: all) :
    bs <+: all.drop out.length := by
  obtain ⟨rest, rfl⟩ := h
  simp [Output.length_eq]

theorem Output.prefix_append (out : Output) (bs : Bytes) : out.bytes <+: (out.append bs).bytes := by
  simp

section
variable {out : Output} {all bs cs : Bytes} {m n : Nat}

/-- A count, or an id, is told by its bytes. -/
theorem count_unique (hm : m < 2 ^ 32) (hn : n < 2 ^ 32)
    (h : (out.append (countBytes out.native m)).bytes <+: all)
    (h' : (out.append (countBytes out.native n)).bytes <+: all) : m = n := by
  have hread := (@Input.reads_var out.native .u32 (BitVec.ofNat _ m)).unique
    (Input.reads_var .u32 (BitVec.ofNat _ n)) (Output.ahead_of_append h) (Output.ahead_of_append h')
  have he := congrArg BitVec.toNat hread.1
  rw [BitVec.toNat_ofNat, BitVec.toNat_ofNat] at he
  exact (Nat.mod_eq_of_lt hm).symm.trans (he.trans (Nat.mod_eq_of_lt hn))

/-- A marker is told by its byte. -/
theorem marker_unique {k l : Marker} (h : (out.append (k.byte :: bs)).bytes <+: all)
    (h' : (out.append (l.byte :: cs)).bytes <+: all) : k = l := by
  have hk := Output.ahead_of_append h
  have hl := Output.ahead_of_append h'
  have hread := (@Input.reads_octet out.native k.code).unique (Input.reads_octet l.code)
    ((List.prefix_append [k.byte] bs).trans hk) ((List.prefix_append [l.byte] cs).trans hl)
  have hcode := Marker.ofCode?_eq_some_iff.2 hread.1
  rw [Marker.ofCode?_eq_some_iff.2 rfl] at hcode
  exact Option.some.inj hcode

/-- A leaf is told by its bytes and its type. -/
theorem leaf_unique {a b : Leaf} (ht : a.type = b.type) (ha : (Node.leaf a).Small)
    (hb : (Node.leaf b).Small) (h : (out.put a.toItem).bytes <+: all)
    (h' : (out.put b.toItem).bytes <+: all) : a = b :=
  ((@Reading.reads_leaf out.native a ha).unique (ht ▸ Reading.reads_leaf b hb)
    (Output.ahead_of_append h) (Output.ahead_of_append h')).1

end

/-! ## Growth -/

/-- Whether a writing only appends. -/
def Appends (x : Writing Unit) : Prop := ∀ s s', x s = .ok () s' → s.out.bytes <+: s'.out.bytes

theorem Appends.bind {x : Writing Unit} {f : Unit → Writing Unit} (hx : Appends x)
    (hf : Appends (f ())) : Appends (x >>= f) := by
  intro s s' h
  obtain ⟨_, s₁, h₁, h₂⟩ := bind_eq_ok.1 h
  exact (hx s s₁ h₁).trans (hf s₁ s' h₂)

theorem Mirrors.appends {e : Engine} {h : Heap} {t : Task} {x : Writing Unit}
    {y : Reading α} {image : α → Value} (hm : Mirrors e h t x y image) : Appends x := by
  intro s s' hx
  obtain ⟨bs, ho, -⟩ := hm s s' hx
  exact ho ▸ s.out.prefix_append bs

section
variable {e : Engine} {h : Heap} {wn : ObjId → Serializer → Writing Unit}
  {rn : ClassInfo → Serializer → Option Nat → Reading ObjId}

theorem MirrorsNested.appends_entries (hn : MirrorsNested e h wn rn) (he : e.registry.Sound)
    {keySlot valueSlot : Slot}
    (hk : ∀ c ser, keySlot.target = some (c, ser) → e.registry.Gives c ser)
    (hv : ∀ c ser, valueSlot.target = some (c, ser) → e.registry.Gives c ser)
    (keyType : Declared) (l : List Entry) :
    Appends (Writing.entriesVia e h wn keySlot valueSlot keyType l) := by
  intro s s' hx
  obtain ⟨bs, hf⟩ := hn.entries he hk hv keyType l hx
  exact (hf 0).1 ▸ s.out.prefix_append bs

/-- What is written of an object whose class its reader knows begins with a marker
    that is not that of null. -/
theorem MirrorsNested.marker_ne_null (hn : MirrorsNested e h wn rn) {o : ObjId} {c : ClassInfo}
    {ser : Serializer} (hg : e.registry.Gives c ser) {s s' : WriteState}
    (hx : Writing.nullableVia e h wn (some o) c ser s = .ok () s') :
    ∃ m bs, m ≠ .null ∧ s'.out = s.out.append (Marker.byte m :: bs) := by
  obtain ⟨_, s₁, h₁, hx⟩ := bind_eq_ok.1 hx
  obtain ⟨hc, rfl⟩ := attempt_eq_ok.1 h₁
  have ho := Heap.typeOf_of_checkClass hc
  have hrest : ∀ {m s₁}, wn o ser s₁ = .ok () s' → s₁.out = s.out.append [Marker.byte m] →
      ∃ bs, s'.out = s.out.append (Marker.byte m :: bs) := by
    intro m s₁ hx hs₁
    obtain ⟨bs, hout, -⟩ := hn o c ser _ _ hg ho hx
    exact ⟨bs, by rw [hout, hs₁, Output.append_append]; rfl⟩
  cases ht : e.tracks c with
  | true =>
    simp only [ht, if_true] at hx
    obtain ⟨again, s₁, h₁, hx⟩ := bind_eq_ok.1 hx
    cases hnum : s.written.number? o with
    | some i =>
      rw [announce_of_some hnum] at h₁
      cases h₁
      cases hx
      exact ⟨.back, _, by decide, rfl⟩
    | none =>
      rw [announce_of_none hnum] at h₁
      cases h₁
      obtain ⟨bs, hout⟩ := hrest hx rfl
      exact ⟨.fresh, bs, by decide, hout⟩
  | false =>
    simp only [ht, Bool.false_eq_true, if_false] at hx
    obtain ⟨_, s₁, h₁, hx⟩ := bind_eq_ok.1 hx
    cases h₁
    obtain ⟨bs, hout⟩ := hrest (m := .plain) hx rfl
    exact ⟨.plain, bs, by decide, hout⟩

end

/-! ## Pairs -/

/-- Whether two values match so far, where some containers are paired. -/
inductive Stands (h h' : Heap) (pairs : List (ObjId × ObjId)) : Value → Value → Prop
  | null : Stands h h' pairs none none
  | leaf {o p : ObjId} {a : Leaf} : h.node o = .leaf a → h'.node p = .leaf a →
      Stands h h' pairs (some o) (some p)
  | pair {o p : ObjId} : (o, p) ∈ pairs → Stands h h' pairs (some o) (some p)

/-- Whether the objects of a pair match, as far as values match so far. -/
abbrev PairMatched (h h' : Heap) (pairs : List (ObjId × ObjId)) (i : ObjId × ObjId) : Prop :=
  Heap.Matched h h' (Stands h h' pairs) (some i.1) (some i.2)

section
variable {h h' : Heap} {pairs pairs' : List (ObjId × ObjId)} {v w : Value}

theorem Stands.mono (hs : Stands h h' pairs v w) (hp : pairs ⊆ pairs') :
    Stands h h' pairs' v w := by
  cases hs with
  | null => exact .null
  | leaf ha ha' => exact .leaf ha ha'
  | pair hm => exact .pair (hp hm)

theorem Heap.Matched.mono {R R' : Value → Value → Prop} (hm : Heap.Matched h h' R v w)
    (hR : ∀ x y, R x y → R' x y) : Heap.Matched h h' R' v w := by
  cases hm with
  | null => exact .null
  | leaf ha ha' => exact .leaf ha ha'
  | container hc hc' ht he =>
    exact .container hc hc' ht (he.imp fun _ _ hee => ⟨hR _ _ hee.1, hR _ _ hee.2⟩)

/-- Whether more containers are paired, and those that are new match. -/
structure PairsGrow (h h' : Heap) (pairs pairs' : List (ObjId × ObjId)) : Prop where
  subset : pairs ⊆ pairs'
  new : ∀ i ∈ pairs', i ∈ pairs ∨ PairMatched h h' pairs' i

theorem PairsGrow.refl : PairsGrow h h' pairs pairs := ⟨List.Subset.refl _, fun _ => Or.inl⟩

theorem PairsGrow.trans {pairs'' : List (ObjId × ObjId)} (h₁ : PairsGrow h h' pairs pairs')
    (h₂ : PairsGrow h h' pairs' pairs'') : PairsGrow h h' pairs pairs'' where
  subset := List.Subset.trans h₁.subset h₂.subset
  new i hi := by
    rcases h₂.new i hi with hi | hi
    · exact (h₁.new i hi).imp_right fun hm => hm.mono fun _ _ hs => hs.mono h₂.subset
    · exact Or.inr hi

end

/-! ## Two writings -/

/-- Two graphs that are written, and what begins with the bytes of both. -/
structure Tale where
  e : Engine
  left : Heap
  right : Heap
  v : Value
  w : Value
  all : Bytes

namespace Tale

/-- Whether lengths, counts and numbers have 32 bits in both graphs, which have as many
    numbers. -/
structure Sound (τ : Tale) : Prop where
  registry : τ.e.registry.Sound
  fits : τ.e.Fits τ.left τ.v
  small : τ.right.Small τ.w

/-- Whether two writings are at the same point, having numbered the containers of the
    pairs if references are tracked. -/
structure Paired (τ : Tale) (pairs : List (ObjId × ObjId)) (s t : WriteState) : Prop where
  out : s.out = t.out
  scope : s.scope = t.scope
  written : τ.e.config.trackRef = true →
    s.written.objects = pairs.map Prod.fst ∧ t.written.objects = pairs.map Prod.snd
  nodup : τ.e.config.trackRef = true →
    (pairs.map Prod.fst).Nodup ∧ (pairs.map Prod.snd).Nodup
  mem : ∀ i ∈ pairs, i.1 ∈ τ.left.containersOf τ.v

/-- Whether two writings from the same point on that come to the same bytes come to
    the same point again, with what is said of the pairs then. -/
def Tells (τ : Tale) (pairs : List (ObjId × ObjId)) (x y : Writing Unit)
    (Q : List (ObjId × ObjId) → Prop) : Prop :=
  ∀ s t s' t', τ.Paired pairs s t → x s = .ok () s' → y t = .ok () t' →
    s'.out.bytes <+: τ.all → t'.out.bytes <+: τ.all →
    ∃ pairs', PairsGrow τ.left τ.right pairs pairs' ∧ τ.Paired pairs' s' t' ∧ Q pairs'

variable {τ : Tale} {pairs : List (ObjId × ObjId)} {s t : WriteState} {x y : Writing Unit}
  {Q Q' : List (ObjId × ObjId) → Prop} {o p : ObjId}

theorem Paired.put (hst : τ.Paired pairs s t) (i : Item) :
    τ.Paired pairs { s with out := s.out.put i } { t with out := t.out.put i } :=
  { hst with out := congrArg (Output.put · i) hst.out }

theorem Paired.inScope (hst : τ.Paired pairs s t) (f : Scope → Scope) :
    τ.Paired pairs (inScope f s) (GraphWire.inScope f t) :=
  { hst with scope := congrArg f hst.scope }

/-- Counts, or ids, that are told by the same bytes. -/
theorem Paired.count_unique (hst : τ.Paired pairs s t) {m n : Nat} (hm : m < 2 ^ 32)
    (hn : n < 2 ^ 32) (hs : (s.out.append (countBytes s.out.native m)).bytes <+: τ.all)
    (ht : (t.out.append (countBytes t.out.native n)).bytes <+: τ.all) : m = n := by
  rw [← hst.out] at ht
  exact GraphWire.count_unique hm hn hs ht

/-- Markers that are told by the same byte. -/
theorem Paired.marker_unique (hst : τ.Paired pairs s t) {k l : Marker} {bs cs : Bytes}
    (hs : (s.out.append (k.byte :: bs)).bytes <+: τ.all)
    (ht : (t.out.append (l.byte :: cs)).bytes <+: τ.all) : k = l := by
  rw [← hst.out] at ht
  exact GraphWire.marker_unique hs ht

/-- The number of an object has 32 bits. -/
theorem Paired.number_lt (hst : τ.Paired pairs s t) (hτ : τ.Sound)
    (ht : τ.e.config.trackRef = true) {i : Nat} (hi : i < pairs.length) : i < 2 ^ 32 := by
  have hmem : ∀ o ∈ pairs.map Prod.fst, o ∈ τ.left.containersOf τ.v := by
    intro o ho
    obtain ⟨i, hm, rfl⟩ := List.mem_map.1 ho
    exact hst.mem i hm
  have hlen := length_le_of_nodup (hst.nodup ht).1 hmem (n := 2 ^ 32)
    (by exact_mod_cast hτ.fits.few ht)
  rw [List.length_map] at hlen
  exact hi.trans_le hlen

/-- A new pair, numbered if references are tracked. -/
theorem Paired.pair (hst : τ.Paired pairs s t) (ho : o ∈ τ.left.containersOf τ.v)
    {s' t' : WriteState} (hout : s'.out = t'.out) (hs : s'.scope = s.scope) (ht : t'.scope = t.scope)
    (hw : τ.e.config.trackRef = true →
      s'.written.objects = s.written.objects ++ [o] ∧ o ∉ s.written.objects ∧
      t'.written.objects = t.written.objects ++ [p] ∧ p ∉ t.written.objects) :
    τ.Paired (pairs ++ [(o, p)]) s' t' where
  out := hout
  scope := by rw [hs, ht, hst.scope]
  written htr := by
    obtain ⟨ho, -, hp, -⟩ := hw htr
    obtain ⟨hs, ht⟩ := hst.written htr
    simp [ho, hp, hs, ht]
  nodup htr := by
    obtain ⟨-, ho, -, hp⟩ := hw htr
    obtain ⟨hs, ht⟩ := hst.written htr
    rw [hs] at ho
    rw [ht] at hp
    obtain ⟨hl, hr⟩ := hst.nodup htr
    rw [List.map_append, List.map_append]
    exact ⟨List.nodup_append.2 ⟨hl, by simp, by rintro a ha b hb rfl; simp_all⟩,
      List.nodup_append.2 ⟨hr, by simp, by rintro a ha b hb rfl; simp_all⟩⟩
  mem i hi := by
    rcases List.mem_append.1 hi with hi | hi
    · exact hst.mem i hi
    · rw [List.mem_singleton.1 hi]
      exact ho

namespace Tells

theorem post (hx : τ.Tells pairs x y Q)
    (hQ : ∀ pairs', PairsGrow τ.left τ.right pairs pairs' → Q pairs' → Q' pairs') :
    τ.Tells pairs x y Q' := by
  intro s t s' t' hst hs ht hs' ht'
  obtain ⟨pairs', hg, hp, hq⟩ := hx s t s' t' hst hs ht hs' ht'
  exact ⟨pairs', hg, hp, hQ pairs' hg hq⟩

protected theorem bind {f g : Unit → Writing Unit} (hx : τ.Tells pairs x y Q) (hf : Appends (f ()))
    (hg : Appends (g ()))
    (h : ∀ pairs', PairsGrow τ.left τ.right pairs pairs' → Q pairs' →
      τ.Tells pairs' (f ()) (g ()) Q') :
    τ.Tells pairs (x >>= f) (y >>= g) Q' := by
  intro s t s' t' hst hs ht hs' ht'
  obtain ⟨_, s₁, hs, hs₁⟩ := bind_eq_ok.1 hs
  obtain ⟨_, t₁, ht, ht₁⟩ := bind_eq_ok.1 ht
  obtain ⟨pairs₁, hg₁, hp₁, hq₁⟩ := hx s t s₁ t₁ hst hs ht ((hf _ _ hs₁).trans hs')
    ((hg _ _ ht₁).trans ht')
  obtain ⟨pairs', hg', hp', hq'⟩ := h pairs₁ hg₁ hq₁ s₁ t₁ s' t' hp₁ hs₁ ht₁ hs' ht'
  exact ⟨pairs', hg₁.trans hg', hp', hq'⟩

theorem declaring {ty : Declared} (hx : τ.Tells pairs x y Q) :
    τ.Tells pairs (declaring ty x) (GraphWire.declaring ty y) Q := by
  intro s t s' t' hst hs ht hs' ht'
  obtain ⟨s₁, hs₁, rfl⟩ := declaring_eq_ok.1 hs
  obtain ⟨t₁, ht₁, rfl⟩ := declaring_eq_ok.1 ht
  obtain ⟨pairs', hg, hp, hq⟩ := hx _ _ s₁ t₁ (hst.inScope _) hs₁ ht₁ hs' ht'
  have hheight : (Scoped.scope s : Scope) = Scoped.scope t := hst.scope
  rw [hheight]
  exact ⟨pairs', hg, hp.inScope _, hq⟩

theorem descend {limit : Nat} (hx : τ.Tells pairs x y Q) :
    τ.Tells pairs (descend limit x) (GraphWire.descend limit y) Q := by
  intro s t s' t' hst hs ht hs' ht'
  obtain ⟨-, s₁, hs₁, rfl⟩ := descend_eq_ok.1 hs
  obtain ⟨-, t₁, ht₁, rfl⟩ := descend_eq_ok.1 ht
  obtain ⟨pairs', hg, hp, hq⟩ := hx _ _ s₁ t₁ (hst.inScope _) hs₁ ht₁ hs' ht'
  exact ⟨pairs', hg, hp.inScope _, hq⟩

/-- What is checked first. -/
theorem attempt {γ δ : Type} {r : Except Error γ} {r' : Except Error δ} {f : γ → Writing Unit}
    {g : δ → Writing Unit}
    (h : ∀ a b, r = .ok a → r' = .ok b → τ.Tells pairs (f a) (g b) Q) :
    τ.Tells pairs (GraphWire.attempt r >>= f) (GraphWire.attempt r' >>= g) Q := by
  intro s t s' t' hst hs ht hs' ht'
  obtain ⟨a, s₁, h₁, hs⟩ := bind_eq_ok.1 hs
  obtain ⟨ha, rfl⟩ := attempt_eq_ok.1 h₁
  obtain ⟨b, t₁, h₁, ht⟩ := bind_eq_ok.1 ht
  obtain ⟨hb, rfl⟩ := attempt_eq_ok.1 h₁
  exact h a b ha hb s t s' t' hst hs ht hs' ht'

/-- The same item in front. -/
theorem put {i : Item} {f g : Unit → Writing Unit} (h : τ.Tells pairs (f ()) (g ()) Q) :
    τ.Tells pairs (Writing.put i >>= f) (Writing.put i >>= g) Q := by
  intro s t s' t' hst hs ht hs' ht'
  exact h _ _ s' t' (hst.put i) hs ht hs' ht'

theorem put_last {i : Item} (hq : Q pairs) : τ.Tells pairs (Writing.put i) (Writing.put i) Q := by
  intro s t s' t' hst hs ht _ _
  cases hs
  cases ht
  exact ⟨pairs, .refl, hst.put i, hq⟩

/-- Nothing more is written. -/
theorem done (hq : Q pairs) : τ.Tells pairs (pure ()) (pure ()) Q := by
  intro s t s' t' hst hs ht _ _
  cases hs
  cases ht
  exact ⟨pairs, .refl, hst, hq⟩

end Tells

end Tale

end GraphWire

/-
  What is read is written again in its shortest form.

  Where references are not tracked and nothing is said of the sides of containers, a reader
  takes more than a writer gives: numbers in more bytes than they need, any byte for a truth
  value, a key more than once.  What it makes of that can be written, since it is no deeper
  than what was read and no key of a container is the same as another.

  * `Engine.Concise` says that a value is written in at most so many bytes, and
    `Engine.Filling` that a container is filled with such values, each read after the other;
  * `Condenses` says that a reading gives a value that is written in no more bytes than it
    took; so does the reading of objects, on all levels (`nestedCondenses_data`);
  * `Engine.serialize_of_deserialize`: whatever is read, from whatever bytes, can be written
    and read back.
-/
import GraphWire.Proofs.Fidelity
import GraphWire.Proofs.Reordering
import GraphWire.Proofs.Shortest
import GraphWire.Proofs.Spelling
import Mathlib.Data.List.Flatten

namespace GraphWire

variable {e : Engine} {h h' : Heap} {v : Value} {o p : ObjId} {type : ContainerType}
  {lo mid hi n j k : Nat}

/-! ## Values -/

namespace Heap

/-- Whether no key is the same as another in what a value leads to, and all sizes have
    32 bits. -/
structure Regular (h : Heap) (v : Value) : Prop where
  tidy : h.Tidy v
  small : h.Small v

theorem regular_none : h.Regular none where
  tidy o ho := by cases ho
  small o ho := by cases ho

theorem Regular.of_kept (hr : h.Regular v) (hv : h.HeightLe n v)
    (hk : ∀ o, h.Leads v o → h'.node o = h.node o) : h'.Regular v := by
  refine ⟨hr.tidy.of_kept hv hk, fun o ho => ?_⟩
  rw [leads_iff_of_kept hk] at ho
  rw [hk o ho]
  exact hr.small o ho

theorem regular_of_parts (ha : h.Apart (h.entries o)) (hs : (h.node o).Small)
    (hp : ∀ x ∈ (h.node o).parts, h.Regular x) : h.Regular (some o) := by
  constructor
  · intro p hl
    cases hl with
    | self => exact ha
    | part hx hl => exact (hp _ hx).tidy p hl
  · intro p hl
    cases hl with
    | self => exact hs
    | part hx hl => exact (hp _ hx).small p hl

end Heap

namespace Engine

/-- Whether a value is regular and is written in at most so many bytes. -/
structure Concise (e : Engine) (h : Heap) (n k : Nat) (v : Value) : Prop where
  regular : h.Regular v
  length : (e.valueBytes h n v).length ≤ k

theorem Concise.of_kept (hc : e.Concise h n k v) (hv : h.HeightLe n v)
    (hk : ∀ o, h.Leads v o → h'.node o = h.node o) : e.Concise h' n k v := by
  refine ⟨hc.regular.of_kept hv hk, ?_⟩
  rw [valueBytes_of_kept hk]
  exact hc.length

/-! ## Containers that are filled -/

/-- What holds of a container that is filled with so many entries: it is a tree of what was
    added after it, its keys differ, and its parts are written in at most so many bytes. -/
structure Filling (e : Engine) (h : Heap) (type : ContainerType) (o : ObjId) (hi n j k : Nat) :
    Prop where
  sprout : h.Sprout o hi (n + 1) (some o)
  container : ∃ c, h.node o = .container c ∧ c.type = type ∧ c.entries.length ≤ j
  apart : h.Apart (h.entries o)
  regular : ∀ x ∈ (h.node o).parts, h.Regular x
  length : ((h.node o).parts.flatMap (e.valueBytes h n)).length ≤ k

namespace Filling

/-- A new container, still empty. -/
theorem start (e : Engine) (h : Heap) (type : ContainerType) (n : Nat) :
    e.Filling (h.alloc (.container (.empty type))).2 type h.size
      (h.alloc (.container (.empty type))).2.size n 0 0 := by
  obtain ⟨hnode, hsprout⟩ := h.sprout_of_begin type n
  refine ⟨hsprout, ⟨_, hnode, by simp, by simp⟩, ?_, ?_, ?_⟩
  · rw [Heap.entries_of_node hnode, Container.entries_empty]
    exact .nil
  · simp [hnode, Node.parts]
  · simp [hnode, Node.parts]

/-- It stays as it is while what is to be put into it is added. -/
theorem later (hf : e.Filling h type o lo n j k) (hlo : lo ≤ h.size) (hx : h.Extends h') :
    e.Filling h' type o lo n j k := by
  have hnode : ∀ q, q < lo → h'.node q = h.node q := fun q hq => hx.node q (hq.trans_le hlo)
  have hself := hnode o (hf.sprout.range o .self).2
  have hkept : ∀ x ∈ (h.node o).parts, ∀ q, h.Leads x q → h'.node q = h.node q :=
    fun x hx q hq => hnode q ((hf.sprout.part hx).range q hq).2
  refine ⟨hf.sprout.later hlo hx, hself ▸ hf.container, ?_, fun x hx => ?_, ?_⟩
  · rw [Heap.entries_congr hself]
    exact hf.apart.of_kept
      (fun _ he => (hf.sprout.part (Heap.fst_mem_parts_of_entries he)).height)
      fun _ he => hkept _ (Heap.fst_mem_parts_of_entries he)
  · rw [hself] at hx
    exact (hf.regular x hx).of_kept (hf.sprout.part hx).height (hkept x hx)
  · rw [hself, List.flatMap_congr fun x hx => valueBytes_of_kept (hkept x hx)]
    exact hf.length

/-- **An entry is put in**, its key and its value read one after the other. -/
theorem insert {key value : Value} {k₁ k₂ : Nat} (hf : e.Filling h type o lo n j k)
    (ho : o < h.size) (hkey : h.Sprout lo mid n key) (hvalue : h.Sprout mid hi n value)
    (hlo : lo ≤ mid) (hhi : mid ≤ hi) (ck : e.Concise h n k₁ key) (cv : e.Concise h n k₂ value) :
    e.Filling (h.insert o key value).2 type o hi n (j + 1) (k + (k₁ + k₂)) := by
  obtain ⟨c, hc, rfl, hj⟩ := hf.container
  have hself : o + 1 ≤ lo := (hf.sprout.range o .self).2
  let l := (h.node o).parts ++ [key, value]
  have hl : ∀ x ∈ l, h.Sprout (o + 1) hi n x ∧ h.Regular x := by
    intro x hx
    rcases List.mem_append.1 hx with hx | hx
    · exact ⟨(hf.sprout.part hx).wider le_rfl (hlo.trans hhi), hf.regular x hx⟩
    rcases List.mem_pair.1 hx with rfl | rfl
    · exact ⟨hkey.wider hself hhi, ck.regular⟩
    · exact ⟨hvalue.wider (hself.trans hlo) le_rfl, cv.regular⟩
  have hapart : ∀ x ∈ l, h.HeightLe n x ∧ ¬h.Leads x o := fun x hx =>
    ⟨(hl x hx).1.height, fun hlead => Nat.lt_irrefl o ((hl x hx).1.range o hlead).1⟩
  have hsub : ((h.insert o key value).2.node o).parts.Subperm l := by
    rw [Heap.parts_insert hc ho]
    show List.Subperm _ ((h.node o).parts ++ _)
    rw [hc]
    exact Entries.parts_insert_subperm _ key value c.entries
  have hkept : ∀ x ∈ l, ∀ q, h.Leads x q → (h.insert o key value).2.node q = h.node q :=
    fun x hx => Heap.node_insert_of_leads (hapart x hx).2
  refine ⟨hf.sprout.insert hc ho hkey hvalue hlo hhi,
    ⟨_, Heap.node_insert_self key value hc ho, by simp, ?_⟩, ?_, fun x hx => ?_, ?_⟩
  · rw [Container.entries_insert, Entries.length_insert]
    split <;> omega
  · exact Heap.apart_insert hc ho hf.apart
      (fun e he => hapart e.1 (List.mem_append_left _ (Heap.fst_mem_parts hc he)))
      (hapart key (by simp [l]))
  · have hx := hsub.subset hx
    exact (hl x hx).2.of_kept (hl x hx).1.height (hkept x hx)
  · rw [List.flatMap_congr fun x hx => valueBytes_of_kept (hkept x (hsub.subset hx))]
    obtain ⟨l', hperm, hl'⟩ := hsub
    calc _ = (l'.flatMap (e.valueBytes h n)).length := (hperm.flatMap_right _).length_eq.symm
      _ ≤ (l.flatMap (e.valueBytes h n)).length := (hl'.flatMap _).length_le
      _ ≤ k + (k₁ + k₂) := by
        simp only [l, List.flatMap_append, List.length_append, List.flatMap_cons,
          List.flatMap_nil, List.append_nil]
        exact Nat.add_le_add hf.length (Nat.add_le_add ck.length cv.length)

/-- **A container is regular once it is filled**, and its bytes are those of the number of
    entries that were read and of what is stored. -/
theorem finish (hf : e.Filling h type o hi n j k) (hj : j < 2 ^ 32) : h.Regular (some o) ∧
    (e.objectBytes h (n + 1) o).length ≤ (countBytes e.config.native j).length + k := by
  obtain ⟨c, hc, -, hle⟩ := hf.container
  refine ⟨Heap.regular_of_parts hf.apart ?_ hf.regular, ?_⟩
  · rw [hc]
    exact hle.trans_lt hj
  · rw [objectBytes_container hc, List.length_append]
    exact Nat.add_le_add (length_countBytes_mono _ hle hj) hf.length

end Filling

end Engine

/-! ## Readings -/

/-- Whether a reading that succeeds in a scope gives a value that is written in no more bytes
    than it took. -/
def Condenses (e : Engine) (sc : Scope) (n : Nat) (x : Reading Value) : Prop :=
  ∀ s v s', s.scope = sc → s.input.Held e.config.native → x s = .ok v s' →
    ∃ k, e.Concise s'.heap n k v ∧ s.input.Spends k s'.input

/-- Whether a reading gives an object of a type so. -/
def CondensesObject (e : Engine) (sc : Scope) (n : Nat) (type : ObjectType)
    (x : Reading ObjId) : Prop :=
  ∀ s p s', s.scope = sc → s.input.Held e.config.native → x s = .ok p s' →
    s'.heap.typeOf p = type ∧ s'.heap.Regular (some p) ∧
      ∃ k, (e.objectBytes s'.heap n p).length ≤ k ∧ s.input.Spends k s'.input

/-- Whether objects without a number are read so, as objects of their class. -/
def NestedCondenses (e : Engine) (sc : Scope) (n : Nat)
    (nested : ClassInfo → Serializer → Option Nat → Reading ObjId) : Prop :=
  ∀ c ser, e.registry.Gives c ser → CondensesObject e sc n c.type (nested c ser none)

section
variable {nested : ClassInfo → Serializer → Option Nat → Reading ObjId} {sc : Scope}
  {s s' : ReadState}

/-- **A value is written in no more bytes than it was read from**, if its object is. -/
theorem NestedCondenses.any (hn : NestedCondenses e sc n nested) (he : e.registry.Sound)
    (htr : e.config.trackRef = false) : Condenses e sc n (Reading.anyVia e nested) := by
  intro s v s' hsc hi hx
  obtain ⟨id, i, hid, hv⟩ := Reading.anyVia_eq_ok he hx
  obtain ⟨m, hm, hspent⟩ := Reading.pays_count s.input id i hi hid
  rcases hv with ⟨rfl, rfl, rfl⟩ | ⟨c, ser, p, rfl, hc, rfl, hp⟩
  · exact ⟨m, ⟨Heap.regular_none, hm⟩, hspent⟩
  · rw [Reading.objectVia_of_not_tracks _ (e.tracks_of_untracked htr c)] at hp
    obtain ⟨htype, hregular, k, hk, hspent'⟩ :=
      hn c ser hc { s with input := i } p s' hsc (hi.spends hspent) hp
    refine ⟨m + k, ⟨hregular, ?_⟩, hspent.trans hspent'⟩
    simp only [Engine.valueBytes, Engine.valueBytesVia, htype, hc.idOf, List.length_append]
    exact Nat.add_le_add hm hk

theorem Condenses.declaring_unknown {x : Reading Value} (hx : Condenses e sc n x) :
    Condenses e sc n (declaring .unknown x) := by
  rintro s v s' rfl hi hd
  obtain ⟨s₁, h₁, rfl⟩ := declaring_eq_ok.1 hd
  exact hx (inScope (·.pushed .unknown) s) v s₁ (Scope.pushed_of_args_eq_nil rfl) hi h₁

/-- **A container is filled with what is read for it**, entry by entry. -/
theorem Engine.Filling.read (hf : sc.frames = .empty)
    (hsprout : Sprouts sc n (Reading.anyVia e nested))
    (hn : Condenses e sc n (Reading.anyVia e nested)) (hends : Reading.NestedEnds sc nested nested)
    (m : Nat) (hsc : s.scope = sc) (hi : s.input.Held e.config.native)
    (hfill : e.Filling s.heap type o s.heap.size n j k)
    (hx : Reading.entriesVia e nested ⟨none, true, .key⟩ ⟨none, true, .value⟩ .unknown o m s =
      .ok () s') :
    ∃ k', e.Filling s'.heap type o s'.heap.size n (j + m) (k + k') ∧
      s.input.Spends k' s'.input := by
  have hs := Scope.orderly_of_empty hf
  have hpushed : sc.pushed .unknown = sc := Scope.pushed_of_args_eq_nil rfl
  have hsproutKey : Sprouts sc n (declaring .unknown (Reading.anyVia e nested)) :=
    .declaring (hpushed.symm ▸ hsprout)
  have hendsKey : Reading.NestedEnds (sc.pushed .unknown) nested nested := hpushed.symm ▸ hends
  induction m generalizing s j k with
  | zero =>
    cases hx
    exact ⟨0, hfill, .refl _⟩
  | succ m ih =>
    obtain ⟨key, s₁, value, s₂, h₁, h₂, hx⟩ := Reading.entriesVia_succ_eq_ok hx
    obtain ⟨hext₁, -, hkey⟩ := hsproutKey s key s₁ hsc h₁
    obtain ⟨k₁, ck, hspent₁⟩ := hn.declaring_unknown s key s₁ hsc hi h₁
    have hsc₁ := Ends.scope_of_ok (.declaring hs (Reading.ends_anyVia hendsKey)) hsc h₁
    have hi₁ := hi.spends hspent₁
    obtain ⟨hext₂, -, hvalue⟩ := hsprout s₁ value s₂ hsc₁ h₂
    obtain ⟨k₂, cv, hspent₂⟩ := hn s₁ value s₂ hsc₁ hi₁ h₂
    have hsc₂ := Ends.scope_of_ok (.keeps hs (Reading.ends_anyVia hends)) hsc₁ h₂
    have hext := hext₁.trans hext₂
    have hlt : o < s.heap.size := (hfill.sprout.range o .self).2
    -- what was there before the key lies below the key, and the key below the value
    have hput := (hfill.later le_rfl hext).insert (hlt.trans_le hext.size)
      (hkey.later le_rfl hext₂) hvalue hext₁.size hext₂.size
      (ck.of_kept hkey.height fun q hq => hext₂.node q (hkey.range q hq).2) cv
    obtain ⟨k₃, hfill', hspent₃⟩ := ih (s := { s₂ with
        heap := (s₂.heap.insert o key value).2
        inserted := s₂.inserted + 1 }) hsc₂ (hi₁.spends hspent₂) (by rwa [Heap.size_insert]) hx
    refine ⟨k₁ + k₂ + k₃, ?_, (hspent₁.trans hspent₂).trans hspent₃⟩
    rwa [← Nat.add_assoc k, Nat.add_comm m 1, ← Nat.add_assoc j]

/-- **A leaf is written in no more bytes than it was read from.** -/
theorem condenses_leaf {c : ClassInfo} {type : LeafType} (hty : c.type = .leaf type) :
    CondensesObject e sc (n + 1) c.type (Reading.data e (n + 1) c (.leaf type) none) := by
  intro s p s' _ hi hx
  obtain ⟨_, a, -, ha, rfl, hheap, -⟩ := Reading.data_leaf_eq_ok hx
  have hnode : s'.heap.node s.heap.size = .leaf a := hheap ▸ Heap.node_alloc_new _ _
  obtain ⟨k, hk, hspent⟩ := Reading.pays_leaf type s.input a s'.input hi ha
  refine ⟨?_, Heap.regular_of_parts ?_ ?_ ?_, k, ?_, hspent⟩
  · rw [Heap.typeOf, hnode, hty, ← Reading.type_of_leaf ha]
    rfl
  · simp [Heap.entries, hnode, Heap.Apart]
  · exact hnode ▸ Reading.small_of_leaf hi ha
  · simp [hnode, Node.parts]
  · simpa [Engine.objectBytes, hnode] using hk

/-- **A container is written in no more bytes than it was read from**, if its entries are. -/
theorem condenses_map {c : ClassInfo} {type : ContainerType} (hty : c.type = .container type)
    (hct : c.containerType none = .ok type) (hf : sc.deeper.frames = .empty)
    (hsprout : Sprouts sc.deeper n (Reading.anyVia e (Reading.data e n)))
    (hn : Condenses e sc.deeper n (Reading.anyVia e (Reading.data e n))) :
    CondensesObject e sc (n + 1) c.type (Reading.data e (n + 1) c .plainMap none) := by
  rintro s p s' rfl hi hx
  obtain ⟨type', i, m, slots, s₁, hct', rfl, hm, hslots, hentries, hheap, hinput, -⟩ :=
    Reading.data_map_eq_ok hx
  cases hct.symm.trans hct'
  rw [hf, Scope.args_of_empty hf, resolveSlots_plain] at hslots
  cases hslots
  obtain ⟨k₁, hk₁, hspent₁⟩ := Reading.pays_count s.input m i hi hm
  have hends := Reading.nestedEnds_data (e := e) n (Scope.orderly_of_empty hf).deeper
  obtain ⟨k₂, hfill, hspent₂⟩ := Engine.Filling.read hf hsprout hn hends m rfl
    (hi.spends hspent₁) (.start e s.heap type n) hentries
  rw [Nat.zero_add, Nat.zero_add] at hfill
  obtain ⟨hregular, hlength⟩ := hfill.finish (Reading.lt_of_count hm)
  obtain ⟨ct, hnode, hctype, -⟩ := hfill.container
  rw [hheap, hinput]
  refine ⟨?_, hregular, k₁ + k₂, hlength.trans (Nat.add_le_add_right hk₁ k₂),
    hspent₁.trans hspent₂⟩
  rw [Heap.typeOf, hnode, hty, ← hctype]
  rfl

/-- **An object is written in no more bytes than it was read from**, on all levels. -/
theorem nestedCondenses_data (he : e.registry.Sound) (htr : e.config.trackRef = false)
    (hu : e.Unbound) (levels : Nat) (hf : sc.frames = .empty) :
    NestedCondenses e sc levels (Reading.data e levels) := by
  induction levels generalizing sc with
  | zero =>
    intro c ser _ s p s' _ _ hx
    cases hx
  | succ n ih =>
    intro c ser hc
    rcases hu.gives he hc with ⟨type, hty, rfl⟩ | ⟨type, hty, rfl⟩
    · exact condenses_leaf hty
    · have hf' : sc.deeper.frames = .empty := hf
      have hs := (Scope.orderly_of_empty hf').deeper
      have hsprout := nestedSprouts_data he htr hu.unnumbered n hs
        ((Scope.orderly_of_empty hf').vague_deeper _ _)
      exact condenses_map hty (he.containerType_eq_ok hc hty) hf' (hsprout.any he htr)
        ((ih hf').any he htr)

end

/-! ## Orders -/

namespace Engine

/-- The bytes of a value are as many in whatever order containers are. -/
theorem length_valueBytes_of_shuffled (hr : h.Shuffled h') (e : Engine) (n : Nat) (v : Value) :
    (e.valueBytes h' n v).length = (e.valueBytes h n v).length := by
  induction n generalizing v with
  | zero => cases v <;> simp [valueBytes, valueBytesVia, hr.typeOf_eq, objectBytes]
  | succ n ih =>
    cases v with
    | none => rw [valueBytes_none, valueBytes_none]
    | some o =>
      have hparts : ((h'.node o).parts.flatMap (e.valueBytes h' n)).length =
          ((h.node o).parts.flatMap (e.valueBytes h n)).length := by
        rw [← ((hr o).parts.flatMap_right _).length_eq, List.length_flatMap, List.length_flatMap]
        simp only [ih]
      simp only [valueBytes] at hparts
      have hn := hr o
      simp only [valueBytes, valueBytesVia, hr.typeOf_eq, objectBytes, List.length_append]
      generalize h.node o = m, h'.node o = m' at hn hparts ⊢
      cases hn with
      | refl => cases m <;> simp [hparts]
      | container ht hp => simp [hparts, hp.length_eq]

theorem Concise.of_shuffled (hc : e.Concise h n k v) (hr : h.Shuffled h')
    (hv : h.HeightLe n v) : e.Concise h' n k v := by
  refine ⟨⟨hr.tidy hv hc.regular.tidy, fun o ho => ?_⟩, ?_⟩
  · exact (hr o).small (hc.regular.small o (hr.symm.leads ho))
  · rw [length_valueBytes_of_shuffled hr]
    exact hc.length

/-! ## Streams -/

variable {h₀ : Heap} {bs : Bytes} {i i' : Input}

/-- A header takes a byte. -/
theorem pays_header (e : Engine) (native : Bool) : Scan.Pays native e.readHeader fun _ => 1 :=
  Input.pays_octet.bind fun _ => (Scan.Pays.attempt fun _ => rfl).bind fun _ => .pure rfl

/-- **What is read of a stream is written in no more bytes than it took**, after a header. -/
theorem concise_of_readStream (he : e.registry.Sound) (htr : e.config.trackRef = false)
    (hu : e.Unbound) (hi : i.Held e.config.native)
    (hx : e.readStream h₀ (Reading.any e) i = .ok (v, h) i') :
    ∃ k, i.Spends (1 + k) i' ∧ ∀ o, v = some o → e.Concise h e.config.maxDepth k v := by
  obtain ⟨null, i₁, hhead, hv⟩ := readStream_eq_ok hx
  obtain ⟨m, hm, hspent⟩ := e.pays_header _ i null i₁ hi hhead
  obtain ⟨l, rfl⟩ := Nat.exists_eq_add_of_le hm
  rcases hv with ⟨rfl, -, rfl⟩ | ⟨s, hany, rfl, rfl⟩
  · exact ⟨l, hspent, by simp⟩
  · have hn := nestedCondenses_data he htr hu e.config.maxDepth (rfl : Scope.start.frames = .empty)
    obtain ⟨k, hk, hspent'⟩ := hn.any he htr (.start i₁ h₀) v s rfl (hi.spends hspent) hany
    refine ⟨l + k, Nat.add_assoc 1 l k ▸ hspent.trans hspent', fun _ _ => ⟨hk.regular, ?_⟩⟩
    exact hk.length.trans (Nat.le_add_left k l)

/-- **What is concise is written and read back**, as the same tree. -/
theorem reread_of_concise (he : e.registry.Sound) (htr : e.config.trackRef = false)
    (hu : e.Unbound) (hv : h.HeightLe e.config.maxDepth v)
    (hk : ∀ o, h.Leads v o → e.registry.Knows (h.typeOf o))
    (hc : ∀ o, v = some o → e.Concise h e.config.maxDepth k v) (h₀ : Heap) :
    ∃ bs, e.serialize h v = .ok bs ∧ bs.length ≤ 1 + k ∧
      ∃ w h', e.deserialize h₀ bs = .ok (w, h') ∧ h.SameTree h' v w := by
  have hregular : h.Regular v := by
    cases v with
    | none => exact Heap.regular_none
    | some o => exact (hc o rfl).regular
  obtain ⟨bs, hs, hle⟩ : ∃ bs, e.serialize h v = .ok bs ∧ bs.length ≤ 1 + k := by
    cases v with
    | none => exact ⟨_, e.serialize_none h, by simp⟩
    | some o =>
      refine ⟨_, serialize_eq_ok he htr hu hv hk, ?_⟩
      rw [List.length_cons, Nat.add_comm]
      exact Nat.add_le_add_left (hc o rfl).length 1
  have hfit : e.Fits h v :=
    ⟨hregular.small, fun ht => absurd (htr.symm.trans ht) Bool.false_ne_true⟩
  obtain ⟨w, d, hd, hr⟩ := deserialize_of_serialize he hs hfit h₀
  exact ⟨bs, hs, hle, w, d.heap, hr, hd.sameTree hv (hd.lost_eq_nil (hv.wellKeyed hregular.tidy))⟩

/-- **Whatever is read can be written, in no more bytes than it took, and comes back as the
    same tree**, in whatever order unordered containers are written. -/
theorem serialize_of_deserialize {config : Config} (htr : config.trackRef = false)
    (hx : ({ config } : Engine).deserialize h₀ bs = .ok (v, h)) :
    ∃ n i', ({ config } : Engine).deserializeWith h₀
        ((Input.ofBytes bs).withLayout config.native) = .ok (v, h) i' ∧
      ((Input.ofBytes bs).withLayout config.native).Spends n i' ∧
      ∀ h', h.Reordered h' → ∀ h₁, ∃ cs, ({ config } : Engine).serialize h' v = .ok cs ∧
        cs.length ≤ n ∧ ∃ w h'', ({ config } : Engine).deserialize h₁ cs = .ok (w, h'') ∧
          h'.SameTree h'' v w := by
  let e : Engine := { config }
  have he : e.registry.Sound := (Assembled.start config).sound
  have hu : e.Unbound := unbound_builtins config
  have hv := (sprout_of_deserialize he htr hu.unnumbered hx).height
  obtain ⟨s, hgood, rfl, hnew⟩ := good_of_deserialize he hu.guarded hx
  obtain ⟨i', hread⟩ := deserialize_eq_ok.1 hx
  obtain ⟨k, hspent, hk⟩ := concise_of_readStream he htr hu (Input.held_ofBytes _ _) hread
  refine ⟨1 + k, i', ?_, hspent, fun h' hr h₁ => ?_⟩
  · rwa [deserializeWith_ofBytes]
  · have hr := hr.shuffled
    refine reread_of_concise he htr hu (hr.heightLe hv) (fun o ho => ?_)
      (fun o ho => (hk o ho).of_shuffled hr hv) h₁
    rw [hr.typeOf_eq]
    exact hgood.knows hnew (hr.symm.leads ho)

/-- A container that maps 7 to true and 8 to false, with what was read for a key that is
    stored already. -/
def overwritten : Heap :=
  ⟨#[.container (.hash ⟨[(some 1, some 6), (some 3, some 4)]⟩), .leaf (.i32 7), .leaf (.bool true),
    .leaf (.i32 8), .leaf (.bool false), .leaf (.i32 7), .leaf (.bool true)]⟩

theorem serialize_of_deserialize_overwritten :
    ({} : Engine).deserialize .empty
        [2, 10, 131, 0, 5, 14, 2, 7, 5, 16, 2, 0, 5, 142, 0, 2, 9, 99] =
        .ok (some 0, overwritten) ∧
      ({} : Engine).serialize overwritten (some 0) = .ok [2, 10, 2, 5, 14, 2, 1, 5, 16, 2, 0] ∧
      ∃ w h', ({} : Engine).deserialize .empty [2, 10, 2, 5, 14, 2, 1, 5, 16, 2, 0] =
          .ok (w, h') ∧ overwritten.SameTree h' (some 0) w := by
  have hx : ({} : Engine).deserialize .empty
      [2, 10, 131, 0, 5, 14, 2, 7, 5, 16, 2, 0, 5, 142, 0, 2, 9, 99] =
        .ok (some 0, overwritten) := by decide +kernel
  have hs : ({} : Engine).serialize overwritten (some 0) =
      .ok [2, 10, 2, 5, 14, 2, 1, 5, 16, 2, 0] := by decide +kernel
  obtain ⟨n, i', -, -, hall⟩ := serialize_of_deserialize (by rfl) hx
  obtain ⟨cs, hcs, -, hread⟩ := hall overwritten (.refl _) .empty
  cases hs.symm.trans hcs
  exact ⟨hx, hs, hread⟩

end Engine

end GraphWire

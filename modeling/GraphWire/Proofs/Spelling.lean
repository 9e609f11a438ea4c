/-
  The bytes of trees.

  Where references are not tracked and nothing is said of the sides of containers, what is
  written of a value is told by the tree that it unfolds into.

  * `Engine.valueBytes` are the bytes of a value, the id of its type first, and
    `Engine.objectBytes` those of an object; they depend on nothing that the value does not
    lead to (`Engine.valueBytes_of_kept`);
  * `Writing.Spells` says that a writing appends some bytes, with a rule for each way to
    compose writings;
  * `Engine.serialize_eq_ok`: a tree that is no higher than the limit is written, as its bytes.
-/
import GraphWire.Proofs.Acceptance
import GraphWire.Proofs.Balance
import GraphWire.Proofs.RoundTrip
import GraphWire.Proofs.Sprouting

namespace GraphWire

/-- Whether nothing is said of the sides of containers. -/
def Engine.Unbound (e : Engine) : Prop :=
  ∀ b, e.registry.HasSide b → b.type = none ∧ b.nullable = true

theorem Engine.Unbound.unnumbered {e : Engine} (hu : e.Unbound) : e.Unnumbered :=
  fun b hb ht => absurd (hu b hb).1 ht

theorem Engine.Unbound.guarded {e : Engine} (hu : e.Unbound) : e.Guarded where
  classless b hb _ := (hu b hb).2
  tracked _ b t hb ht := by simp [(hu b hb).1] at ht
  untracked _ b _ t _ hb _ _ _ ht _ := by simp [(hu b hb).1] at ht

/-- Nothing is said of the sides of the types that every engine begins with. -/
theorem Engine.unbound_builtins (config : Config) : ({ config } : Engine).Unbound := by
  have hsides : ∀ b ∈ Registry.builtins.sides, b.type = none ∧ b.nullable = true := by decide
  exact fun b hb => hsides b hb.mem_sides

/-- The id that a type is registered under. -/
def Registry.idOf (r : Registry) (type : ObjectType) : Nat :=
  match r.find? type with
  | some reg => reg.id
  | none => 0

theorem Registry.Gives.idOf {r : Registry} {c : ClassInfo} {ser : Serializer} (hc : r.Gives c ser) :
    r.idOf c.type = c.id := by
  obtain ⟨reg, hreg, rfl⟩ := hc.classOf
  simp [Registry.idOf, hreg]

/-- Where nothing is said of sides, there are leaves and plain containers. -/
theorem Engine.Unbound.gives {e : Engine} (hu : e.Unbound) (he : e.registry.Sound) {c : ClassInfo}
    {ser : Serializer} (hc : e.registry.Gives c ser) :
    (∃ type, c.type = .leaf type ∧ ser = .leaf type) ∨
      ∃ type, c.type = .container type ∧ ser = .plainMap := by
  cases hc with
  | leaf hreg => exact Or.inl ⟨_, Registry.type_of_find? hreg, rfl⟩
  | @map type reg key value hreg hkt hvt hk hv =>
    obtain ⟨hbk, hbv⟩ := he.hasSide hreg (.map hreg hkt hvt hk hv)
    obtain ⟨hkn, hkt'⟩ := hu _ hbk
    obtain ⟨hvn, hvt'⟩ := hu _ hbv
    refine Or.inr ⟨type, Registry.type_of_find? hreg, ?_⟩
    obtain rfl : key = none := by simpa [hkn] using hkt.symm
    obtain rfl : value = none := by simpa [hvn] using hvt.symm
    simp [SideBinding.setup, hkt', hvt', Serializer.plainMap]

/-- Where there are no frames either, entries are written and read with their types. -/
theorem resolveSlots_plain (r : Registry) : resolveSlots r .empty [] {} {} =
    .ok (⟨none, true, .key⟩, ⟨none, true, .value⟩, .unknown) := rfl

/-! ## Bytes -/

namespace Engine

section
variable (e : Engine) (h : Heap)

/-- The bytes of a value, given those of objects: the id of its type and its object. -/
def valueBytesVia (object : ObjId → Bytes) : Value → Bytes
  | none => countBytes e.config.native 0
  | some o => countBytes e.config.native (e.registry.idOf (h.typeOf o) + 1) ++ object o

/-- The bytes of an object, where at most so many levels are left. -/
def objectBytes : (levels : Nat) → ObjId → Bytes
  | 0, _ => []
  | levels + 1, o =>
    match h.node o with
    | .leaf a => a.toItem.encode e.config.native
    | .container c => countBytes e.config.native c.entries.length ++
      (h.node o).parts.flatMap (e.valueBytesVia h (objectBytes levels))
    | _ => []

/-- The bytes of a value, where at most so many levels are left. -/
def valueBytes (levels : Nat) : Value → Bytes := e.valueBytesVia h (e.objectBytes h levels)

end

variable {e : Engine} {h h' : Heap} {n : Nat} {v : Value} {o : ObjId}

theorem valueBytes_none : e.valueBytes h n none = countBytes e.config.native 0 := by
  simp only [valueBytes, valueBytesVia]

theorem objectBytes_container {c : Container} (hc : h.node o = .container c) :
    e.objectBytes h (n + 1) o = countBytes e.config.native c.entries.length ++
      (h.node o).parts.flatMap (e.valueBytes h n) := by
  rw [objectBytes, hc]
  rfl

/-- The bytes of a value depend on nothing that it does not lead to. -/
theorem valueBytes_of_kept (hk : ∀ o, h.Leads v o → h'.node o = h.node o) :
    e.valueBytes h' n v = e.valueBytes h n v := by
  induction n generalizing v with
  | zero =>
    cases v with
    | none => rw [valueBytes_none, valueBytes_none]
    | some o => simp only [valueBytes, valueBytesVia, Heap.typeOf, hk o .self, objectBytes]
  | succ n ih =>
    cases v with
    | none => rw [valueBytes_none, valueBytes_none]
    | some o =>
      have hparts : (h.node o).parts.flatMap (e.valueBytes h' n) =
          (h.node o).parts.flatMap (e.valueBytes h n) :=
        List.flatMap_congr fun x hx => ih fun p hp => hk p (.part hx hp)
      simp only [valueBytes] at hparts
      simp only [valueBytes, valueBytesVia, Heap.typeOf, hk o .self, objectBytes, hparts]

end Engine

/-! ## Writings -/

/-- Whether a writing appends the bytes, where there are no frames and so many levels are
    left. -/
def Writing.Spells (e : Engine) (n : Nat) (x : Writing Unit) (bs : Bytes) : Prop :=
  ∀ s : WriteState, s.scope.frames = .empty → s.scope.depth + n ≤ e.config.maxDepth →
    s.out.native = e.config.native → x s = .ok () { s with out := s.out.append bs }

namespace Writing.Spells

variable {e : Engine} {n : Nat} {x y : Writing Unit} {bs cs : Bytes}

protected theorem pure : Spells e n (pure ()) [] := fun s _ _ _ => by rw [Output.append_nil]; rfl

theorem append (hx : Spells e n x bs) (hy : Spells e n y cs) :
    Spells e n (x >>= fun _ => y) (bs ++ cs) := by
  intro s hf hd hn
  rw [bind_of_ok (hx s hf hd hn), ← Output.append_append]
  exact hy { s with out := s.out.append bs } hf hd hn

theorem put (i : Item) : Spells e n (put i) (i.encode e.config.native) := by
  intro s _ _ hn
  rw [← hn]
  rfl

theorem count (m : Nat) : Spells e n (count m) (countBytes e.config.native m) := put _

/-- Where there are no frames, another writing may be meant. -/
theorem congr (hx : Spells e n x bs) (h : ∀ s, s.scope.frames = .empty → y s = x s) :
    Spells e n y bs := by
  intro s hf hd hn
  rw [h s hf]
  exact hx s hf hd hn

theorem declaring_unknown (hx : Spells e n x bs) : Spells e n (declaring .unknown x) bs := by
  intro s hf hd hn
  refine declaring_eq_ok.2 ⟨_, hx (inScope (·.pushed .unknown) s) ?_ hd hn, ?_⟩
  · show (s.scope.pushed .unknown).frames = .empty
    rw [Scope.pushed_of_args_eq_nil rfl, hf]
  · show _ = { s with
      out := s.out.append bs
      scope := (s.scope.pushed .unknown).lowered s.scope.frames.height }
    rw [Scope.lowered_pushed]

theorem descend (hx : Spells e n x bs) :
    Spells e (n + 1) (descend e.config.maxDepth x) bs := by
  intro s hf hd hn
  have hd' : s.scope.depth < e.config.maxDepth := by omega
  refine descend_eq_ok.2 ⟨hd', _, hx (inScope Scope.deeper s) hf ?_ hn, ?_⟩
  · show s.scope.depth + 1 + n ≤ _
    omega
  · rfl

end Writing.Spells

section
variable {e : Engine} {h : Heap} {wn : ObjId → Serializer → Writing Unit} {n : Nat} {o : ObjId}
  {c : ClassInfo} {ser : Serializer} {v : Value} {object : ObjId → Bytes}

/-- Whether an object is written as its bytes by the serializer of its class. -/
def Writing.SpellsObject (e : Engine) (h : Heap) (n : Nat)
    (wn : ObjId → Serializer → Writing Unit) (object : ObjId → Bytes) (o : ObjId) : Prop :=
  ∃ c ser, e.registry.Gives c ser ∧ c.type = h.typeOf o ∧ Writing.Spells e n (wn o ser) (object o)

/-- **A value is written as its bytes** if its object is. -/
theorem Writing.spells_anyVia (he : e.registry.Sound) (htr : e.config.trackRef = false)
    (hv : ∀ o, v = some o → SpellsObject e h n wn object o) :
    Spells e n (anyVia e h wn v) (e.valueBytesVia h object v) := by
  cases v with
  | none => exact .count 0
  | some o =>
    obtain ⟨c, ser, hc, ht, hn⟩ := hv o rfl
    simp only [anyVia, Engine.valueBytesVia, ← ht, hc.idOf, hc.classOfObject,
      he.serializer_eq_ok hc, attempt_ok, pure_bind, e.tracks_of_untracked htr c]
    exact (Spells.count (c.id + 1)).append hn

/-- **Entries are written as the bytes of their sides**, where nothing is said of these. -/
theorem Writing.spells_entriesVia (he : e.registry.Sound) (htr : e.config.trackRef = false)
    (l : List Entry) (hl : ∀ x ∈ l, ∀ o, x.1 = some o ∨ x.2 = some o →
      SpellsObject e h n wn object o) :
    Spells e n (entriesVia e h wn ⟨none, true, .key⟩ ⟨none, true, .value⟩ .unknown l)
      ((l.flatMap fun (k, v) => [k, v]).flatMap (e.valueBytesVia h object)) := by
  induction l with
  | nil => exact .pure
  | cons x l ih =>
    obtain ⟨k, x⟩ := x
    obtain ⟨hkx, hl⟩ := List.forall_mem_cons.1 hl
    have hkey : Spells e n (anyVia e h wn k) (e.valueBytesVia h object k) :=
      spells_anyVia he htr fun o ho => hkx o (Or.inl ho)
    have hvalue : Spells e n (anyVia e h wn x) (e.valueBytesVia h object x) :=
      spells_anyVia he htr fun o ho => hkx o (Or.inr ho)
    have hcheck : ∀ side (v : Value), Slot.check ⟨none, true, side⟩ v = .ok () := by
      intro side v
      simp [Slot.check, ensure]
    simp only [entriesVia, hcheck, attempt_ok, pure_bind, List.flatMap_cons, List.cons_append,
      List.nil_append]
    exact hkey.declaring_unknown.append (hvalue.append (ih hl))

/-- **A plain container is written as its bytes**, if its entries are. -/
theorem Writing.spells_mapVia (he : e.registry.Sound) (htr : e.config.trackRef = false)
    {ct : Container} (hct : h.node o = .container ct)
    (hn : ∀ x ∈ (h.node o).parts, ∀ p, x = some p → SpellsObject e h n wn object p) :
    Spells e n (mapVia e h wn {} {} o) (countBytes e.config.native ct.entries.length ++
      (h.node o).parts.flatMap (e.valueBytesVia h object)) := by
  have hentries := spells_entriesVia (l := ct.entries) he htr fun x hx p hp => by
    rcases hp with hp | hp
    · exact hn _ (Heap.fst_mem_parts hct hx) p hp
    · exact hn _ (Heap.snd_mem_parts hct hx) p hp
  have hcon : h.container? o = some ct := by simp [Heap.container?, hct]
  have hpop : Spells e n (modify popFrame) [] := by
    intro s hf _ _
    show EStateM.Result.ok () { s with scope := s.scope.popped } = _
    rw [Scope.popped_of_empty hf, Output.append_nil]
  unfold mapVia
  simp only [hcon]
  refine (Spells.count _).append ?_
  have hbody := hentries.append hpop
  rw [List.append_nil] at hbody
  rw [hct]
  refine hbody.congr fun s hf => ?_
  have hargs : (declaredArgs s).getD [] = [] := Scope.args_of_empty hf
  rw [get_bind, get_bind, hargs, hf, resolveSlots_plain, attempt_ok, pure_bind]

/-- **What is known is written as its bytes**, if it is not too high. -/
theorem Writing.spells_data (he : e.registry.Sound) (htr : e.config.trackRef = false)
    (hu : e.Unbound) (hv : h.HeightLe n (some o))
    (hk : ∀ p, h.Leads (some o) p → e.registry.Knows (h.typeOf p)) :
    SpellsObject e h n (data e h n) (e.objectBytes h n) o := by
  induction n generalizing o with
  | zero => exact hv.elim
  | succ n ih =>
    obtain ⟨c, ser, hc, ht⟩ := hk o .self
    refine ⟨c, ser, hc, ht, Spells.descend ?_⟩
    rcases hu.gives he hc with ⟨type, hty, rfl⟩ | ⟨type, hty, rfl⟩
    · obtain ⟨a, ha, hat⟩ := Heap.exists_leaf (ht.symm.trans hty)
      simp only [bodyVia, Engine.objectBytes, ha, hat, if_true]
      exact .put _
    · obtain ⟨ct, hct, -⟩ := Heap.exists_container (ht.symm.trans hty)
      rw [Engine.objectBytes_container hct]
      refine spells_mapVia he htr hct fun x hx p hp => ?_
      subst hp
      exact ih (hv.part hx) fun q hq => hk q (.part hx hq)

end

/-! ## Streams -/

/-- What a writing appends stands in the stream after the header. -/
theorem Engine.written_writeStream {e : Engine} {x : Writing Unit} {bs : Bytes}
    (hx : Writing.Spells e e.config.maxDepth x bs) (o : ObjId) :
    e.written (e.writeStream (some o) x) = .ok (e.headerByte false :: bs) := by
  have hout : e.writeHeader false (.empty e.config.native) =
      (Output.empty e.config.native).append [e.headerByte false] := rfl
  have hrun := hx (.start (e.writeHeader false (.empty e.config.native))) rfl
    (by simp [WriteState.start, Scope.start]) rfl
  unfold written writeStream
  rw [modify_bind]
  simp only [Option.isSome_some, Option.isNone_some, if_true, writing, hrun]
  simp [WriteState.start, hout]

/-- **A tree that is no higher than the limit is written as its bytes.** -/
theorem Engine.serialize_eq_ok {e : Engine} {h : Heap} {o : ObjId} (he : e.registry.Sound)
    (htr : e.config.trackRef = false) (hu : e.Unbound)
    (hv : h.HeightLe e.config.maxDepth (some o))
    (hk : ∀ p, h.Leads (some o) p → e.registry.Knows (h.typeOf p)) :
    e.serialize h (some o) =
      .ok (e.headerByte false :: e.valueBytes h e.config.maxDepth (some o)) := by
  rw [serialize_eq_written]
  refine written_writeStream (fun s hf hd hn => ?_) o
  have hlevels : e.config.maxDepth - s.scope.depth = e.config.maxDepth := by omega
  show Writing.anyVia e h (Writing.data e h (e.config.maxDepth - s.scope.depth)) (some o) s = _
  rw [hlevels]
  refine Writing.spells_anyVia he htr (fun p hp => ?_) s hf hd hn
  cases hp
  exact Writing.spells_data he htr hu hv hk

end GraphWire

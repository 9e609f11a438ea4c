/-
  Streams that are made up.

  A reading is run forward over bytes that are known (`Yields`): what it needs and
  what it ensures are said of the bindings and of the heap, and it leaves everything
  else as it was.

  * `Yields.null`, `Yields.back` and `Yields.fresh` are the ways in which a side is
    given what a writer would not write there;
  * `Yields.filler`: there are bytes for any side;
  * `Yields.holding`: a container is read that holds what one side was given.
-/
import GraphWire.Proofs.Balance
import GraphWire.Proofs.Contracts
import GraphWire.Proofs.RoundTrip

namespace GraphWire

variable {α β : Type} {e : Engine} {l : Nat} {S S' : Scope → Prop} {as bs cs : Bytes}
  {s s' : ReadState} {c : ClassInfo} {ser : Serializer} {P P' : Bindings → Heap → Prop}

/-! ## Runs over known bytes -/

/-- Whether a scope is under no declaration and leaves so many levels. -/
structure Engine.Room (e : Engine) (l : Nat) (sc : Scope) : Prop where
  frames : sc.frames = .empty
  depth : sc.depth + l ≤ e.config.maxDepth

theorem Engine.Room.lt {sc : Scope} (h : e.Room (l + 1) sc) : sc.depth < e.config.maxDepth :=
  Nat.lt_of_lt_of_le (Nat.lt_add_of_pos_right (Nat.succ_pos l)) h.depth

/-- Whether bytes lie ahead of a reading, in a scope that passes the test. -/
structure ReadState.Faces (e : Engine) (S : Scope → Prop) (bs : Bytes) (s : ReadState) :
    Prop where
  source : s.input.source = none
  layout : s.input.native = e.config.native
  ahead : bs <+: s.input.unread
  scope : S s.scope

/-- Whether bytes were passed and the objects there were are as they were. -/
structure ReadState.Passes (bs : Bytes) (s s' : ReadState) : Prop where
  input : s'.input = s.input.advance bs.length
  scope : s'.scope = s.scope
  pending : s'.bindings.pending = s.bindings.pending
  size : s.heap.size ≤ s'.heap.size
  node : ∀ o, o < s.heap.size → s'.heap.node o = s.heap.node o

namespace ReadState

theorem Faces.left (hs : s.Faces e S (as ++ bs)) : s.Faces e S as :=
  { hs with ahead := (List.prefix_append _ _).trans hs.ahead }

theorem Faces.right (hs : s.Faces e S (as ++ bs)) (hp : s.Passes as s') : s'.Faces e S bs where
  source := by rw [hp.input, Input.source_advance, hs.source]
  layout := by rw [hp.input, Input.native_advance, hs.layout]
  ahead := hp.input ▸ Input.prefix_advance hs.ahead
  scope := hp.scope ▸ hs.scope

theorem Passes.trans {s₁ : ReadState} (h₁ : s.Passes as s₁) (h₂ : s₁.Passes bs s') :
    s.Passes (as ++ bs) s' where
  input := by rw [h₂.input, h₁.input, Input.advance_advance, List.length_append]
  scope := h₂.scope.trans h₁.scope
  pending := h₂.pending.trans h₁.pending
  size := h₁.size.trans h₂.size
  node o ho := (h₂.node o (ho.trans_le h₁.size)).trans (h₁.node o ho)

end ReadState

/-- Whether a reading succeeds on the bytes where the first holds and the second
    holds then. -/
def Yields (e : Engine) (S : Scope → Prop) (bs : Bytes) (x : Reading α) (P : Bindings → Heap → Prop)
    (Q : α → Bindings → Heap → Prop) : Prop :=
  ∀ s : ReadState, s.Faces e S bs → P s.bindings s.heap →
    ∃ a s', x s = .ok a s' ∧ s.Passes bs s' ∧ Q a s'.bindings s'.heap

/-- Whether what is said holds however the heap goes on, and says that the first
    number is given if references are tracked. -/
structure Firm (e : Engine) (P : Bindings → Heap → Prop) : Prop where
  later : ∀ b h h', h.Before h' → P b h → P b h'
  first : e.config.trackRef = true → ∀ b h, P b h → ∃ o, b.get 0 = .ok o

/-- Whether an object of the type has the first number. -/
def First (t : ObjectType) (v : Value) (b : Bindings) (h : Heap) : Prop :=
  ∃ o, v = some o ∧ b.get 0 = .ok o ∧ o < h.size ∧ h.typeOf o = t

theorem firm_first (e : Engine) (t : ObjectType) (v : Value) : Firm e (First t v) where
  later := by
    rintro b h h' hb ⟨o, rfl, ho, hlt, ht⟩
    exact ⟨o, rfl, ho, hlt.trans_le hb.size, (hb.type o hlt).trans ht⟩
  first _ _ _ := fun ⟨o, _, ho, _⟩ => ⟨o, ho⟩

namespace Yields

variable {Q Q' : α → Bindings → Heap → Prop} {R : β → Bindings → Heap → Prop} {x : Reading α}

theorem imp (hx : Yields e S bs x P Q) (hP : ∀ b h, P' b h → P b h)
    (hQ : ∀ a b h, Q a b h → Q' a b h) : Yields e S bs x P' Q' := by
  intro s hs hp
  obtain ⟨a, s', h, hpass, hq⟩ := hx s hs (hP _ _ hp)
  exact ⟨a, s', h, hpass, hQ _ _ _ hq⟩

theorem of_takes {a : α} (hx : Reading.Takes e.config.native x bs a) :
    Yields e S bs x P fun a' b h => a' = a ∧ P b h := by
  intro s hs hp
  refine ⟨a, _, hx s hs.source hs.layout hs.ahead, ?_, rfl, hp⟩
  exact ⟨rfl, rfl, rfl, le_rfl, fun _ _ => rfl⟩

theorem bind {f : α → Reading β} (hx : Yields e S as x P Q)
    (hf : ∀ a, Yields e S bs (f a) (Q a) R) : Yields e S (as ++ bs) (x >>= f) P R := by
  intro s hs hp
  obtain ⟨a, s₁, h₁, hp₁, hq⟩ := hx s hs.left hp
  obtain ⟨b, s₂, h₂, hp₂, hr⟩ := hf a s₁ (hs.right hp₁) hq
  exact ⟨b, s₂, (bind_of_ok h₁).trans h₂, hp₁.trans hp₂, hr⟩

theorem map {f : α → β} (hx : Yields e S bs x P Q) (hf : ∀ a b h, Q a b h → R (f a) b h) :
    Yields e S bs (f <$> x) P R := by
  intro s hs hp
  obtain ⟨a, s', h, hpass, hq⟩ := hx s hs hp
  exact ⟨f a, s', map_of_ok h, hpass, hf _ _ _ hq⟩

/-- What is said of the objects there are still holds. -/
theorem framed {F : Heap → Prop} (hF : ∀ h h', h.Extends h' → F h → F h')
    (hx : Yields e S bs x P Q) :
    Yields e S bs x (fun b h => P b h ∧ F h) fun a b h => Q a b h ∧ F h := by
  intro s hs hp
  obtain ⟨a, s', h, hpass, hq⟩ := hx s hs hp.1
  exact ⟨a, s', h, hpass, hq, hF _ _ ⟨hpass.size, hpass.node⟩ hp.2⟩

theorem of_exists {ι : Type} {P : ι → Bindings → Heap → Prop}
    (hx : ∀ i, Yields e S bs x (P i) Q) : Yields e S bs x (fun b h => ∃ i, P i b h) Q :=
  fun s hs ⟨i, hp⟩ => hx i s hs hp

/-- What is known to be read comes first. -/
theorem take {a : α} {f : α → Reading β} (hx : Reading.Takes e.config.native x as a)
    (hf : Yields e S bs (f a) P R) : Yields e S (as ++ bs) (x >>= f) P R := by
  refine (of_takes hx).bind fun a' s hs hp => ?_
  obtain ⟨rfl, hp⟩ := hp
  exact hf s hs hp

/-- A declaration is gone again at its end. -/
theorem declaring {ty : Declared} (hx : Yields e S' bs x P Q)
    (hS : ∀ sc, S sc → S' (sc.pushed ty)) : Yields e S bs (declaring ty x) P Q := by
  intro s hs hp
  obtain ⟨a, s', h, hpass, hq⟩ := hx (inScope (·.pushed ty) s) ⟨hs.source, hs.layout, hs.ahead,
    hS _ hs.scope⟩ hp
  refine ⟨a, _, declaring_eq_ok.2 ⟨s', h, rfl⟩, ⟨hpass.input, ?_, hpass.pending, hpass.size,
    hpass.node⟩, hq⟩
  show s'.scope.lowered s.scope.frames.height = s.scope
  rw [hpass.scope]
  exact s.scope.lowered_pushed ty

end Yields

/-! ## Objects -/

/-- The state in which an object was added past the bytes. -/
def ReadState.added (s : ReadState) (n : Node) (id : Option Nat) (bs : Bytes) : ReadState :=
  { s with
    input := s.input.advance bs.length
    heap := (s.heap.alloc n).2
    bindings := (s.bindings.expect id).bind s.heap.size }

theorem ReadState.passes_added (s : ReadState) (n : Node) (id : Option Nat) (bs : Bytes) :
    s.Passes bs (s.added n id bs) where
  input := rfl
  scope := rfl
  pending := Bindings.pending_bind rfl _
  size := (s.heap.before_alloc n).size
  node _ ho := Heap.node_alloc_of_lt n ho

namespace Reading

theorem data_leaf (a : Leaf) (ha : ∀ t, a = .string t → (Utf8.encode t).length < 2 ^ 32)
    (id : Option Nat) (hs : s.Faces e S (a.toItem.encode e.config.native))
    (hl : s.scope.depth < e.config.maxDepth) :
    data e (l + 1) c (.leaf a.type) id s =
      .ok s.heap.size (s.added (.leaf a) id (a.toItem.encode e.config.native)) := by
  refine descend_eq_ok.2 ⟨hl, inScope Scope.deeper (s.added (.leaf a) id _), ?_, rfl⟩
  let r : ReadState := { inScope Scope.deeper s with bindings := s.bindings.expect id }
  have hread := takes_scan (reads_leaf a ha) r hs.source hs.layout hs.ahead
  have hbody : bodyVia e (data e l) c (.leaf a.type) r = .ok s.heap.size
      { r with
        input := r.input.advance (a.toItem.encode e.config.native).length
        heap := (r.heap.alloc (.leaf a)).2 } := bind_of_ok hread
  exact (modify_bind _ _ _).trans (completing_of_eq hbody rfl)

/-- A container is read if its entries are. -/
theorem data_map_of_entries {key value : SideSetup Serializer} {type : ContainerType}
    {keySlot valueSlot : Slot} {keyType : Declared} (hc : c.containerType none = .ok type) {n : Nat}
    (hn : n < 2 ^ 32) (id : Option Nat) (hs : s.Faces e S (countBytes e.config.native n))
    (hl : s.scope.depth < e.config.maxDepth)
    (hslots : resolveSlots e.registry s.scope.deeper.frames s.scope.deeper.args key value =
      .ok (keySlot, valueSlot, keyType))
    (hx : entriesVia e (data e l) keySlot valueSlot keyType s.heap.size n
      (inScope Scope.deeper (s.added (.container (.empty type)) id
        (countBytes e.config.native n))) = .ok () s')
    (hp : s'.bindings.pending = s.bindings.pending) :
    data e (l + 1) c (.map key value none) id s =
      .ok s.heap.size (inScope Scope.shallower (inScope Scope.popped s')) := by
  refine descend_eq_ok.2 ⟨hl, inScope Scope.popped s', ?_, rfl⟩
  let r : ReadState := { inScope Scope.deeper s with bindings := s.bindings.expect id }
  have hread := @takes_count e.config.native _ hn
    { r with heap := (r.heap.alloc (.container (.empty type))).2 } hs.source hs.layout hs.ahead
  have hbody := @mapVia_of_entries _ _ _ _ _ _ r _ _ _ _ _ _ hc hread hslots hx
  refine (modify_bind _ _ _).trans (completing_of_ne hbody ?_)
  show s'.bindings.pending.length ≠ (id :: s.bindings.pending).length
  rw [hp]
  simp

/-- Under no declaration the scope is then as it was. -/
theorem data_map {b b' : SideBinding} {key value : Option (ClassInfo × Serializer)}
    {type : ContainerType} (hc : c.containerType none = .ok type) {n : Nat} (hn : n < 2 ^ 32)
    (id : Option Nat) (hs : s.Faces e (e.Room (l + 1)) (countBytes e.config.native n))
    (hx : entriesVia e (data e l) ⟨key, b.nullable, .key⟩ ⟨value, b'.nullable, .value⟩ .unknown
      s.heap.size n (inScope Scope.deeper (s.added (.container (.empty type)) id
        (countBytes e.config.native n))) = .ok () s')
    (hsc : s'.scope = s.scope.deeper) (hp : s'.bindings.pending = s.bindings.pending) :
    data e (l + 1) c (.map (b.setup key) (b'.setup value) none) id s =
      .ok s.heap.size { s' with scope := s.scope } := by
  have hf := hs.scope.frames
  have hscope : s'.scope.popped.shallower = s.scope := by
    rw [hsc]
    generalize s.scope = sc at hf
    obtain ⟨f, d⟩ := sc
    cases hf
    rfl
  have hpop : inScope Scope.shallower (inScope Scope.popped s') = { s' with scope := s.scope } := by
    rw [← hscope]
    rfl
  have hargs : s.scope.deeper.args = [] := by
    show (Frames.next s.scope.frames _).getD [] = []
    rw [hf]
    rfl
  have hdeeper : s.scope.deeper.frames = .empty := hf
  rw [← hpop]
  refine data_map_of_entries hc hn id hs hs.scope.lt ?_ hx hp
  rw [hargs, hdeeper, resolveSlots_setup]

end Reading

theorem exists_leaf_of_type (type : LeafType) :
    ∃ a : Leaf, a.type = type ∧ ∀ t, a = .string t → (Utf8.encode t).length < 2 ^ 32 := by
  cases type with
  | bool => exact ⟨.bool false, rfl, by simp⟩
  | i8 => exact ⟨.i8 0, rfl, by simp⟩
  | i16 => exact ⟨.i16 0, rfl, by simp⟩
  | i32 => exact ⟨.i32 0, rfl, by simp⟩
  | i64 => exact ⟨.i64 0, rfl, by simp⟩
  | f32 => exact ⟨.f32 0, rfl, by simp⟩
  | f64 => exact ⟨.f64 0, rfl, by simp⟩
  | string =>
    refine ⟨.string "", rfl, ?_⟩
    rintro t ⟨⟩
    decide

/-- **There are bytes for an object of any class.** -/
theorem Registry.Sound.exists_bytes (he : e.registry.Sound) (hc : e.registry.Gives c ser) :
    ∃ (bs : Bytes) (n : Node), n.type = c.type ∧ ∀ (l : Nat) (id : Option Nat) (s : ReadState),
      s.Faces e (e.Room (l + 1)) bs →
        Reading.data e (l + 1) c ser id s = .ok s.heap.size (s.added n id bs) := by
  cases hc with
  | @leaf type reg hreg =>
    obtain ⟨a, rfl, ha⟩ := exists_leaf_of_type type
    exact ⟨_, .leaf a, (type_of_find? hreg).symm, fun l id s hs =>
      Reading.data_leaf a ha id hs hs.scope.lt⟩
  | @map type reg key value hreg hkt hvt hk hv =>
    have ht := type_of_find? hreg
    refine ⟨countBytes e.config.native 0, .container (.empty type), by simp [Node.type, ht],
      fun l id s hs => ?_⟩
    have hct := he.containerType_eq_ok (.map hreg hkt hvt hk hv) ht
    have hp := (s.passes_added (.container (.empty type)) id (countBytes e.config.native 0)).pending
    exact Reading.data_map hct (by decide) id hs rfl rfl hp

/-! ## Sides -/

namespace Yields

variable {nested : ClassInfo → Serializer → Option Nat → Reading ObjId} {nullable : Bool}
  {side : Side} {Q : ObjId → Bindings → Heap → Prop}

/-- Null is given to a side without a class by the id of a type. -/
theorem null : Yields e S (countBytes e.config.native 0)
    (Reading.sideVia e nested ⟨none, nullable, side⟩) P fun v b h => v = none ∧ P b h :=
  of_takes fun r hs hn hp => (bind_of_ok (Reading.takes_count (by decide) r hs hn hp)).trans rfl

/-- It is given to one that may be null by a marker. -/
theorem null_of_nullable : Yields e S [Marker.null.byte]
    (Reading.sideVia e nested ⟨some (c, ser), true, side⟩) P fun v b h => v = none ∧ P b h :=
  of_takes fun r hs hn hp => (bind_of_ok (Reading.takes_marker .null r hs hn hp)).trans rfl

theorem earlier (hP : ∀ b h, P b h → ∃ o, b.get 0 = .ok o) :
    Yields e S (countBytes e.config.native 0) Reading.earlier P
      fun o b h => b.get 0 = .ok o ∧ P b h := by
  intro s hs hp
  obtain ⟨o, ho⟩ := hP _ _ hp
  have hread := Reading.takes_count (by decide) s hs.source hs.layout hs.ahead
  refine ⟨o, _, (bind_of_ok hread).trans (attempt_eq_ok.2 ⟨ho, rfl⟩), ?_, ho, hp⟩
  exact ⟨rfl, rfl, rfl, le_rfl, fun _ _ => rfl⟩

/-- **An object of any type is given by its number** where there may be a marker. -/
theorem back (hm : nullable = true ∨ e.tracks c = true) (hP : ∀ b h, P b h → ∃ o, b.get 0 = .ok o) :
    Yields e S ([Marker.back.byte] ++ countBytes e.config.native 0)
      (Reading.sideVia e nested ⟨some (c, ser), nullable, side⟩) P
      fun v b h => (∃ o, v = some o ∧ b.get 0 = .ok o) ∧ P b h := by
  have hearlier : Yields e S (countBytes e.config.native 0) Reading.earlier P
      fun o b h => b.get 0 = .ok o ∧ P b h := earlier hP
  cases nullable with
  | true =>
    show Yields e S _ (Reading.nullableVia nested c ser) P _
    exact take (Reading.takes_marker .back) (hearlier.map fun o b h hq => ⟨⟨o, rfl, hq.1⟩, hq.2⟩)
  | false =>
    have ht : e.tracks c = true := hm.resolve_left Bool.false_ne_true
    have hobject : Yields e S ([Marker.back.byte] ++ countBytes e.config.native 0)
        (Reading.objectVia e nested c ser) P fun o b h => b.get 0 = .ok o ∧ P b h := by
      unfold Reading.objectVia
      rw [if_pos ht]
      exact take (Reading.takes_marker .back) hearlier
    exact hobject.map fun o b h hq => ⟨⟨o, rfl, hq.1⟩, hq.2⟩

/-- An object is given the first number. -/
theorem fresh (hx : Yields e S bs (nested c ser (some 0)) (fun b _ => b.bound = #[none]) Q) :
    Yields e S bs (Reading.freshVia nested c ser) (fun b _ => b.bound = #[]) Q := by
  intro s hs hp
  have hb : s.bindings.reserve.2.bound = #[none] := by simp [Bindings.reserve, hp]
  obtain ⟨o, s', h, hpass, hq⟩ := hx { s with bindings := s.bindings.reserve.2 }
    { hs with } hb
  refine ⟨o, s', ?_, { hpass with }, hq⟩
  have hid : s.bindings.reserve.1 = 0 := by simp [Bindings.reserve, hp]
  show nested c ser (some s.bindings.reserve.1) { s with bindings := s.bindings.reserve.2 } = _
  rw [hid, h]

/-- An object of a class that may be null is given the first number. -/
theorem numbered (he : e.registry.Sound) (hc : e.registry.Gives c ser) :
    ∃ bs, ∀ l side, Yields e (e.Room (l + 1)) bs
      (Reading.sideVia e (Reading.data e (l + 1)) ⟨some (c, ser), true, side⟩)
      (fun b _ => b.bound = #[]) (First c.type) := by
  obtain ⟨bs, n, hn, hread⟩ := he.exists_bytes hc
  refine ⟨[Marker.fresh.byte] ++ bs, fun l side => ?_⟩
  have hnew : Yields e (e.Room (l + 1)) bs (Reading.data e (l + 1) c ser (some 0))
      (fun b _ => b.bound = #[none]) fun o => First c.type (some o) := by
    intro s hs hb
    refine ⟨_, _, hread l (some 0) s hs, s.passes_added n (some 0) bs, s.heap.size, rfl, ?_, ?_, ?_⟩
    · simp [ReadState.added, Bindings.get_eq_ok, Bindings.expect, Bindings.bind, hb]
    · show s.heap.size < (s.heap.alloc n).2.size
      simp
    · show (s.heap.alloc n).2.typeOf s.heap.size = _
      rw [Heap.typeOf, Heap.node_alloc_new, hn]
  show Yields e (e.Room (l + 1)) _ (Reading.nullableVia (Reading.data e (l + 1)) c ser) _ _
  exact take (Reading.takes_marker .fresh) ((fresh hnew).map fun o b h hq => hq)

/-- **There are bytes for any side** that change nothing that is said here. -/
theorem filler (he : e.registry.Sound) {target : Option (ClassInfo × Serializer)}
    (hc : ∀ c ser, target = some (c, ser) → e.registry.Gives c ser) (nullable : Bool) :
    ∃ bs, ∀ l side (P : Bindings → Heap → Prop), Firm e P →
      Yields e (e.Room (l + 1)) bs
        (Reading.sideVia e (Reading.data e (l + 1)) ⟨target, nullable, side⟩) P fun _ => P := by
  cases target with
  | none => exact ⟨_, fun l side P _ => null.imp (fun _ _ hp => hp) fun _ _ _ hq => hq.2⟩
  | some target =>
    obtain ⟨c, ser⟩ := target
    cases nullable with
    | true =>
      exact ⟨_, fun l side P _ => null_of_nullable.imp (fun _ _ hp => hp) fun _ _ _ hq => hq.2⟩
    | false =>
      by_cases ht : e.tracks c = true
      · have htrack : e.config.trackRef = true := (Bool.and_eq_true_iff.1 ht).1
        refine ⟨[Marker.back.byte] ++ countBytes e.config.native 0, fun l side P hfirm => ?_⟩
        exact (back (Or.inr ht) (hfirm.first htrack)).imp (fun _ _ hp => hp)
          fun _ _ _ hq => hq.2
      · obtain ⟨bs, n, -, hread⟩ := he.exists_bytes (hc c ser rfl)
        refine ⟨bs, fun l side P hfirm => ?_⟩
        have hplain : Yields e (e.Room (l + 1)) bs
            (Reading.objectVia e (Reading.data e (l + 1)) c ser) P fun _ => P := by
          rw [Reading.objectVia_of_not_tracks _ (Bool.eq_false_iff.2 ht)]
          intro s hs hp
          refine ⟨_, _, hread l none s hs, s.passes_added n none bs, ?_⟩
          exact hfirm.later _ _ _ (s.heap.before_alloc n) hp
        exact hplain.map fun _ _ _ hq => hq

end Yields

/-! ## Containers -/

/-- Whether a container holds a value on a side that is bound so. -/
def Registration.Holds (reg : Registration) (ct : Container) (b : SideBinding) (v : Value) : Prop :=
  ∃ x ∈ ct.entries, b = reg.binding.key ∧ v = x.1 ∨ b = reg.binding.value ∧ v = x.2

/-- Whether an object is a container that holds a value on a side that is bound so. -/
def Registry.Carries (r : Registry) (b : SideBinding) (v : Value) (h : Heap) (o : ObjId) : Prop :=
  ∃ ct reg, h.node o = .container ct ∧ r.find? (.container ct.type) = some reg ∧ reg.Holds ct b v

/-- An entry that is put into an empty container is its only one. -/
theorem Heap.exists_single {h : Heap} {o : ObjId} {type : ContainerType}
    (hn : h.node o = .container (.empty type)) (ho : o < h.size) (k x : Value) :
    ∃ ct, (h.insert o k x).2.node o = .container ct ∧ ct.type = type ∧ ct.entries = [(k, x)] := by
  exact ⟨_, node_insert_self k x hn ho, by simp, by simp [Container.entries_insert, Entries.insert]⟩

namespace Yields

variable {b b' : SideBinding} {key value : Option (ClassInfo × Serializer)} {type : ContainerType}

/-- An entry is put in if both sides are read. -/
theorem entry {nested : ClassInfo → Serializer → Option Nat → Reading ObjId}
    {keySlot valueSlot : Slot} {keyType : Declared} {o : ObjId} {Q : Value → Bindings → Heap → Prop}
    {R : Value → Value → Bindings → Heap → Prop}
    (hk : Yields e S' as (Reading.sideVia e nested keySlot) P Q)
    (hS : ∀ sc, S sc → S' (sc.pushed keyType))
    (hv : ∀ k, Yields e S bs (Reading.sideVia e nested valueSlot) (Q k) (R k))
    (hs : s.Faces e S (as ++ bs)) (hp : P s.bindings s.heap) (n : Nat) :
    ∃ k x s₁, s.Passes (as ++ bs) s₁ ∧ R k x s₁.bindings s₁.heap ∧
      Reading.entriesVia e nested keySlot valueSlot keyType o (n + 1) s =
        Reading.entriesVia e nested keySlot valueSlot keyType o n
          { s₁ with
            heap := (s₁.heap.insert o k x).2
            inserted := s₁.inserted + 1 } := by
  obtain ⟨k, s₁, h₁, hp₁, hq⟩ := hk.declaring hS s hs.left hp
  obtain ⟨x, s₂, h₂, hp₂, hr⟩ := hv k s₁ (hs.right hp₁) hq
  exact ⟨k, x, s₂, hp₁.trans hp₂, hr, (bind_of_ok h₁).trans ((bind_of_ok h₂).trans rfl)⟩

/-- A container of one entry is read if both sides are. -/
theorem single (hc : c.containerType none = .ok type) {Q : Value → Bindings → Heap → Prop}
    {R : Value → Value → Bindings → Heap → Prop}
    (hk : Yields e (e.Room l) as (Reading.sideVia e (Reading.data e l) ⟨key, b.nullable, .key⟩) P Q)
    (hv : ∀ k, Yields e (e.Room l) bs
      (Reading.sideVia e (Reading.data e l) ⟨value, b'.nullable, .value⟩) (Q k) (R k))
    (id : Option Nat)
    (hP : ∀ b h, P' b h → P ((b.expect id).bind h.size) (h.alloc (.container (.empty type))).2) :
    Yields e (e.Room (l + 1)) (countBytes e.config.native 1 ++ (as ++ bs))
      (Reading.data e (l + 1) c (.map (b.setup key) (b'.setup value) none) id) P'
      fun o b h => ∃ k x h₁, R k x b h₁ ∧ o < h₁.size ∧ h₁.node o = .container (.empty type) ∧
        h = (h₁.insert o k x).2 := by
  intro s hs hp
  let n : Node := .container (.empty type)
  let s₀ := inScope Scope.deeper (s.added n id (countBytes e.config.native 1))
  have hadd := s.passes_added n id (countBytes e.config.native 1)
  have hs₀ : s₀.Faces e (e.Room l) (as ++ bs) :=
    { hs.right hadd with
      scope := ⟨hs.scope.frames, (Nat.add_right_comm _ _ _).trans_le hs.scope.depth⟩ }
  have hroom : ∀ sc, e.Room l sc → e.Room l (sc.pushed .unknown) := fun _ h => h
  obtain ⟨k, x, s₁, hpass, hr, hx⟩ :=
    entry (o := s.heap.size) hk hroom hv hs₀ (hP _ _ hp) 0
  have hnew : s.heap.size < s₀.heap.size := by
    show _ < (s.heap.alloc n).2.size
    simp
  have hnode : s₁.heap.node s.heap.size = n :=
    (hpass.node _ hnew).trans (Heap.node_alloc_new _ _)
  have hread := Reading.data_map hc (by decide) id hs.left hx hpass.scope
    (hpass.pending.trans hadd.pending)
  refine ⟨_, _, hread, ⟨?_, rfl, hpass.pending.trans hadd.pending, ?_, fun o ho => ?_⟩, k, x,
    s₁.heap, hr, hnew.trans_le hpass.size, hnode, rfl⟩
  · show s₁.input = _
    have hfirst : s₀.input = s.input.advance (countBytes e.config.native 1).length := rfl
    rw [hpass.input, hfirst, Input.advance_advance, ← List.length_append]
  · show _ ≤ (s₁.heap.insert s.heap.size k x).2.size
    rw [Heap.size_insert]
    exact hnew.le.trans hpass.size
  · show (s₁.heap.insert s.heap.size k x).2.node o = _
    rw [Heap.node_insert_of_ne k x (Nat.ne_of_lt ho), hpass.node o (ho.trans hnew)]
    exact hadd.node o ho

/-- **There are bytes for a container that holds what one side is given**, whatever that is. -/
theorem holding (he : e.registry.Sound) {reg : Registration}
    (hreg : e.registry.find? (.container type) = some reg)
    (hser : e.registry.serializer (.container type) = .ok ser)
    (hb : b = reg.binding.key ∨ b = reg.binding.value) (target : Option (ClassInfo × Serializer))
    (hbt : b.type = target.map (·.1.type))
    (ht : ∀ c ser, target = some (c, ser) → e.registry.Gives c ser) (as : Bytes) :
    ∃ bs, ∀ (P : Bindings → Heap → Prop) (Q : Value → Bindings → Heap → Prop), Firm e P →
      (∀ v, Firm e (Q v)) →
      (∀ l side, Yields e (e.Room (l + 1)) as
        (Reading.sideVia e (Reading.data e (l + 1)) ⟨target, b.nullable, side⟩) P Q) →
      ∀ l id (P' : Bindings → Heap → Prop),
        (∀ bs h, P' bs h → P ((bs.expect id).bind h.size) (h.alloc (.container (.empty type))).2) →
          Yields e (e.Room (l + 2)) bs (Reading.data e (l + 2) reg.toClassInfo ser id) P'
            fun o bs h => ∃ v, e.registry.Carries b v h o ∧ Q v bs h := by
  have hg := he.gives_of_find? hreg hser
  have hty := Registry.type_of_find? hreg
  have hct := he.containerType_eq_ok hg hty
  obtain ⟨key, value, rfl, hkt, hvt, hk, hv⟩ := hg.of_container hreg
  -- the other side is given whatever there are bytes for
  rcases hb with rfl | rfl
  · obtain rfl := Registry.target_unique hk ht (hkt.symm.trans hbt)
    obtain ⟨bs, hfill⟩ := filler he hv reg.binding.value.nullable
    refine ⟨_, fun P Q _ hQ hx l id P' hP' => (single hct (hx l .key)
      (fun k => hfill l .value _ (hQ k)) id hP').imp (fun _ _ hp => hp) ?_⟩
    rintro o b _ ⟨k, x, h, hq, hlt, hnode, rfl⟩
    obtain ⟨ct, hct, htype, hentries⟩ := Heap.exists_single hnode hlt k x
    exact ⟨k, ⟨ct, reg, hct, htype ▸ hreg, (k, x), by simp [hentries], Or.inl ⟨rfl, rfl⟩⟩,
      (hQ k).later _ _ _ (h.before_insert o k x) hq⟩
  · obtain rfl := Registry.target_unique hv ht (hvt.symm.trans hbt)
    obtain ⟨bs, hfill⟩ := filler he hk reg.binding.key.nullable
    refine ⟨_, fun P Q hP hQ hx l id P' hP' => (single hct (hfill l .key _ hP)
      (fun k => hx l .value) id hP').imp (fun _ _ hp => hp) ?_⟩
    rintro o b _ ⟨k, x, h, hq, hlt, hnode, rfl⟩
    obtain ⟨ct, hct, htype, hentries⟩ := Heap.exists_single hnode hlt k x
    exact ⟨x, ⟨ct, reg, hct, htype ▸ hreg, (k, x), by simp [hentries], Or.inr ⟨rfl, rfl⟩⟩,
      (hQ x).later _ _ _ (h.before_insert o k x) hq⟩

end Yields

/-- What comes with a type is read as an object of it. -/
theorem Reading.anyVia_eq_object (he : e.registry.Sound) (hc : e.registry.Gives c ser)
    (nested : ClassInfo → Serializer → Option Nat → Reading ObjId)
    (hs : s.Faces e S (countBytes e.config.native (c.id + 1))) :
    anyVia e nested s = (some <$> objectVia e nested c ser)
      { s with input := s.input.advance (countBytes e.config.native (c.id + 1)).length } := by
  obtain ⟨reg, hreg, hclass⟩ := hc.classOf
  have hser := he.serializer_eq_ok hc
  obtain ⟨-, -, hid, hlt⟩ :=
    he.gives_of_object (Registry.classOfObject_eq_ok.2 ⟨reg, hreg, hclass⟩) hser
  refine (bind_of_ok (takes_count hlt s hs.source hs.layout hs.ahead)).trans ?_
  rw [if_neg (Nat.succ_ne_zero _), Nat.add_sub_cancel, hid, attempt_ok, pure_bind, hser,
    attempt_ok, pure_bind]
  rfl

namespace Yields

/-- An object comes with its type. -/
theorem any (he : e.registry.Sound) (hc : e.registry.Gives c ser)
    {nested : ClassInfo → Serializer → Option Nat → Reading ObjId}
    {Q : ObjId → Bindings → Heap → Prop}
    (hx : Yields e S bs (Reading.objectVia e nested c ser) P Q) :
    Yields e S (countBytes e.config.native (c.id + 1) ++ bs) (Reading.anyVia e nested) P
      fun v b h => ∃ o, v = some o ∧ Q o b h := by
  intro s hs hp
  let as := countBytes e.config.native (c.id + 1)
  have hpass : s.Passes as { s with input := s.input.advance as.length } :=
    ⟨rfl, rfl, rfl, le_rfl, fun _ _ => rfl⟩
  obtain ⟨o, s', h, hpass', hq⟩ := hx _ (hs.right hpass) hp
  exact ⟨some o, s', (Reading.anyVia_eq_object he hc nested hs.left).trans (map_of_ok h),
    hpass.trans hpass', o, rfl, hq⟩

/-- It comes without a number if references are not tracked. -/
theorem any_of_untracked (he : e.registry.Sound) (hc : e.registry.Gives c ser)
    (htr : e.config.trackRef = false)
    {nested : ClassInfo → Serializer → Option Nat → Reading ObjId}
    {Q : ObjId → Bindings → Heap → Prop}
    (hx : Yields e S bs (nested c ser none) P Q) :
    Yields e S (countBytes e.config.native (c.id + 1) ++ bs) (Reading.anyVia e nested) P
      fun v b h => ∃ o, v = some o ∧ Q o b h := by
  refine any he hc ?_
  rwa [Reading.objectVia_of_not_tracks _ (e.tracks_of_untracked htr c)]

end Yields

/-! ## Streams -/

/-- What is left of a stream past the header of an object. -/
def Engine.past (e : Engine) (bs : Bytes) : Input :=
  ((Input.ofBytes ([e.headerByte false] ++ bs)).withLayout e.config.native).advance 1

theorem ReadState.faces_start (h₀ : Heap) (bs : Bytes) (hS : S .start) :
    (ReadState.start (e.past bs) h₀).Faces e S bs where
  source := rfl
  layout := rfl
  ahead := List.prefix_refl bs
  scope := hS

/-- **A stream is read** if what comes after its header is. -/
theorem Engine.readStream_of_ok {h₀ : Heap} {x : Reading Value} {v : Value}
    (hx : x (.start (e.past bs) h₀) = .ok v s) :
    e.readStream h₀ x ((Input.ofBytes ([e.headerByte false] ++ bs)).withLayout e.config.native) =
      .ok (v, s.heap) s.input := by
  let i := (Input.ofBytes ([e.headerByte false] ++ bs)).withLayout e.config.native
  have hhead := Engine.reads_header (e := e) e.config.native false i rfl rfl
    (List.prefix_append [e.headerByte false] bs)
  refine (bind_of_ok hhead).trans ?_
  show Engine.reading h₀ x (e.past bs) = _
  unfold Engine.reading
  rw [hx]

theorem Yields.deserialize {Q : Value → Bindings → Heap → Prop} (h₀ : Heap)
    (hx : Yields e (e.Room e.config.maxDepth) bs
      (Reading.anyVia e (Reading.data e e.config.maxDepth)) (fun b _ => b.bound = #[]) Q) :
    ∃ v b h, e.deserialize h₀ ([e.headerByte false] ++ bs) = .ok (v, h) ∧ Q v b h := by
  obtain ⟨v, s, hv, -, hq⟩ :=
    hx (.start (e.past bs) h₀) (ReadState.faces_start h₀ bs ⟨rfl, (Nat.zero_add _).le⟩) rfl
  have hany : Reading.any e (.start (e.past bs) h₀) = .ok v s := hv
  refine ⟨v, _, _, ?_, hq⟩
  rw [Engine.deserialize_eq_readStream]
  exact resultOf_eq_ok.2 ⟨_, Engine.readStream_of_ok hany⟩

end GraphWire

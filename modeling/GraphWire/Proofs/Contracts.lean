/-
  What containers are bound to hold.

  A binding says which values may stand on a side (`SideBinding.Admits`).  A reader
  checks less than a writer: null may come by the id of a type, and an object by its
  number.

  * `Engine.Guarded` says of an engine that none of its sides is open to that;
  * `Heap.Honours` says that all containers that a value leads to hold what they may;
  * `Engine.honours_of_deserialize`: what a guarded engine reads honours its
    bindings, whatever the bytes are.
-/
import GraphWire.Engine.Operations
import GraphWire.Proofs.Equality
import GraphWire.Proofs.Resolution
import GraphWire.Proofs.Scans

namespace GraphWire

/-- Whether a value may stand on a side that is bound so. -/
def SideBinding.Admits (h : Heap) (b : SideBinding) (v : Value) : Prop :=
  (v = none → b.nullable = true) ∧ ∀ o t, v = some o → b.type = some t → h.typeOf o = t

/-- Whether the containers that a value leads to hold what their types are bound to. -/
def Heap.Honours (r : Registry) (h : Heap) (v : Value) : Prop :=
  ∀ o c reg, h.Leads v o → h.node o = .container c → r.find? (.container c.type) = some reg →
    ∀ x ∈ c.entries, reg.binding.key.Admits h x.1 ∧ reg.binding.value.Admits h x.2

/-- Whether there is a serializer for a type of containers with this side. -/
def Registry.HasSide (r : Registry) (b : SideBinding) : Prop :=
  ∃ type reg s, r.find? (.container type) = some reg ∧ r.serializer (.container type) = .ok s ∧
    (b = reg.binding.key ∨ b = reg.binding.value)

/-- The sides of all types. -/
def Registry.sides (r : Registry) : List SideBinding :=
  r.registrations.flatMap fun reg => [reg.binding.key, reg.binding.value]

theorem Registry.HasSide.mem_sides {r : Registry} {b : SideBinding} (hb : r.HasSide b) :
    b ∈ r.sides := by
  obtain ⟨_, reg, _, hreg, -, hb⟩ := hb
  exact List.mem_flatMap.2 ⟨reg, mem_of_find? hreg, by simpa using hb⟩

/-- The two sides of a container that has a serializer. -/
theorem Registry.Sound.hasSide {r : Registry} (hr : r.Sound) {type : ContainerType}
    {reg : Registration} {ser : Serializer} (hreg : r.find? (.container type) = some reg)
    (hc : r.Gives reg.toClassInfo ser) :
    r.HasSide reg.binding.key ∧ r.HasSide reg.binding.value := by
  have hser := hr.serializer_eq_ok hc
  rw [type_of_find? hreg] at hser
  exact ⟨⟨type, reg, ser, hreg, hser, Or.inl rfl⟩, ⟨type, reg, ser, hreg, hser, Or.inr rfl⟩⟩

/-- Whether no side is open to what its binding forbids. -/
structure Engine.Guarded (e : Engine) : Prop where
  /-- Null comes in by the id of a type. -/
  classless : ∀ b, e.registry.HasSide b → b.type = none → b.nullable = true
  /-- A number may be that of any container. -/
  tracked : e.config.trackRef = true → ∀ b t, e.registry.HasSide b → b.type = some t →
    b.nullable = false ∧ ∃ type, t = .leaf type
  /-- Numbers are given on all sides that have a class and may be null. -/
  untracked : e.config.trackRef = false → ∀ b b' t t', e.registry.HasSide b →
    e.registry.HasSide b' → b.nullable = true → b'.nullable = true → b.type = some t →
      b'.type = some t' → t = t'

/-- Whether objects of a type may be given numbers. -/
def Engine.Bindable (e : Engine) (t : ObjectType) : Prop :=
  e.config.trackRef = false → ∀ b t', e.registry.HasSide b → b.nullable = true →
    b.type = some t' → t = t'

/-- Whether a type has a class with a serializer. -/
def Registry.Knows (r : Registry) (t : ObjectType) : Prop := ∃ c s, r.Gives c s ∧ c.type = t

variable {e : Engine} {h h₀ h' : Heap} {b : SideBinding} {v : Value} {o p : ObjId}

/-! ## Values that were read -/

namespace Heap

/-- Whether a value is null or an object that was added. -/
def New (h₀ h : Heap) (v : Value) : Prop := ∀ o, v = some o → h₀.size ≤ o ∧ o < h.size

/-- Whether objects were added only and are as they were. -/
structure Extends (h h' : Heap) : Prop where
  size : h.size ≤ h'.size
  node : ∀ o, o < h.size → h'.node o = h.node o

theorem Extends.refl (h : Heap) : h.Extends h := ⟨le_rfl, fun _ _ => rfl⟩

theorem Extends.trans {h'' : Heap} (h₁ : h.Extends h') (h₂ : h'.Extends h'') : h.Extends h'' :=
  ⟨h₁.size.trans h₂.size, fun o ho => (h₂.node o (ho.trans_le h₁.size)).trans (h₁.node o ho)⟩

theorem extends_alloc (h : Heap) (n : Node) : h.Extends (h.alloc n).2 :=
  ⟨by simp, fun _ ho => node_alloc_of_lt n ho⟩

/-- Whether objects were added only and keep their types. -/
structure Before (h h' : Heap) : Prop where
  size : h.size ≤ h'.size
  type : ∀ o, o < h.size → h'.typeOf o = h.typeOf o

theorem Before.refl (h : Heap) : h.Before h := ⟨le_rfl, fun _ _ => rfl⟩

theorem Before.trans {h'' : Heap} (h₁ : h.Before h') (h₂ : h'.Before h'') : h.Before h'' :=
  ⟨h₁.size.trans h₂.size, fun o ho => (h₂.type o (ho.trans_le h₁.size)).trans (h₁.type o ho)⟩

theorem Extends.before (hx : h.Extends h') : h.Before h' :=
  ⟨hx.size, fun o ho => congrArg Node.type (hx.node o ho)⟩

theorem before_alloc (h : Heap) (n : Node) : h.Before (h.alloc n).2 := (h.extends_alloc n).before

theorem before_insert (h : Heap) (p : ObjId) (k x : Value) : h.Before (h.insert p k x).2 := by
  refine ⟨(size_insert k x).ge, fun o ho => ?_⟩
  by_cases hop : o = p
  swap
  · rw [typeOf, typeOf, node_insert_of_ne k x hop]
  subst hop
  cases hc : h.node o with
  | container c =>
    rw [typeOf, node_insert_self k x hc ho]
    simp [typeOf, hc, Node.type]
  | leaf | octet | record => simp [insert, hc]

theorem New.later (hv : New h₀ h v) (hb : h.Before h') : New h₀ h' v :=
  fun o ho => ⟨(hv o ho).1, (hv o ho).2.trans_le hb.size⟩

/-- Whether a value was added and may stand on a side. -/
def Fits (h₀ h : Heap) (b : SideBinding) (v : Value) : Prop := b.Admits h v ∧ New h₀ h v

theorem Fits.later (hv : Fits h₀ h b v) (hb : h.Before h') : Fits h₀ h' b v := by
  refine ⟨⟨hv.1.1, fun o t ho ht => ?_⟩, hv.2.later hb⟩
  rw [hb.type o (hv.2 o ho).2, hv.1.2 o t ho ht]

/-- Whether an object is a leaf or a container with what it is bound to. -/
def Proper (r : Registry) (h₀ h : Heap) (n : Node) : Prop :=
  r.Knows n.type ∧ ((∃ a, n = .leaf a) ∨ ∃ c, n = .container c ∧
    ∀ reg, r.find? (.container c.type) = some reg →
      ∀ x ∈ c.entries, Fits h₀ h reg.binding.key x.1 ∧ Fits h₀ h reg.binding.value x.2)

theorem Proper.later {r : Registry} {n : Node} (hn : Proper r h₀ h n) (hb : h.Before h') :
    Proper r h₀ h' n := by
  obtain ⟨hk, ha | ⟨c, rfl, hc⟩⟩ := hn
  · exact ⟨hk, Or.inl ha⟩
  · refine ⟨hk, Or.inr ⟨c, rfl, fun reg hreg x hx => ?_⟩⟩
    exact ⟨(hc reg hreg x hx).1.later hb, (hc reg hreg x hx).2.later hb⟩

/-- A container stays as it is bound if the entry that is put into it is. -/
theorem Proper.insert {r : Registry} {ct : Container} {reg : Registration}
    (hn : Proper r h₀ h (.container ct)) (hreg : r.find? (.container ct.type) = some reg)
    {k x : Value} (hk : Fits h₀ h reg.binding.key k) (hx : Fits h₀ h reg.binding.value x)
    {test : Value → Bool} :
    Proper r h₀ (h.insert p k x).2 (.container (ct.insert test k x).2) := by
  have hbef := h.before_insert p k x
  obtain ⟨hknow, ⟨a, ha⟩ | ⟨_, ⟨⟩, hall⟩⟩ := hn
  · cases ha
  refine ⟨by simpa [Node.type] using hknow, Or.inr ⟨_, rfl, fun reg' hreg' y hy => ?_⟩⟩
  rw [Container.type_insert] at hreg'
  cases hreg.symm.trans hreg'
  rw [Container.entries_insert] at hy
  obtain ⟨hkey, hval⟩ := Entries.mem_insert hy
  constructor
  · rcases hkey with hkey | ⟨y', hy', hkey⟩
    · exact hkey ▸ hk.later hbef
    · exact hkey ▸ (hall reg hreg y' hy').1.later hbef
  · rcases hval with hval | hval
    · exact hval ▸ hx.later hbef
    · exact (hall reg hreg y hval).2.later hbef

end Heap

/-! ## States of a reading -/

theorem Bindings.get_eq_ok {bs : Bindings} {id : Nat} :
    bs.get id = .ok o ↔ bs.bound[id]? = some (some o) := by
  unfold Bindings.get
  split <;> simp_all


/-- What holds of a reading all the time, whatever the bytes are. -/
structure ReadState.Good (e : Engine) (h₀ : Heap) (s : ReadState) : Prop where
  frames : s.scope.frames = .empty
  size : h₀.size ≤ s.heap.size
  node : ∀ o, h₀.size ≤ o → o < s.heap.size → Heap.Proper e.registry h₀ s.heap (s.heap.node o)
  bound : ∀ id o, s.bindings.get id = .ok o →
    Heap.New h₀ s.heap (some o) ∧ e.Bindable (s.heap.typeOf o)

namespace ReadState.Good

variable {s s' : ReadState}

theorem start (i : Input) (h₀ : Heap) : (ReadState.start i h₀).Good e h₀ where
  frames := rfl
  size := le_rfl
  node o ho ho' := absurd ho (not_le.2 ho')
  bound id o ho := by cases ho

/-- Neither the input nor the depth matters. -/
theorem congr (hs : s.Good e h₀) (hf : s'.scope.frames = .empty) (hh : s'.heap = s.heap)
    (hb : ∀ id o, s'.bindings.get id = .ok o → s.bindings.get id = .ok o) : s'.Good e h₀ where
  frames := hf
  size := hh ▸ hs.size
  node o ho ho' := by
    rw [hh] at ho' ⊢
    exact hs.node o ho ho'
  bound id o ho := hh ▸ hs.bound id o (hb id o ho)

/-- An object is added. -/
theorem alloc (hs : s.Good e h₀) {n : Node} (hn : Heap.Proper e.registry h₀ (s.heap.alloc n).2 n)
    (hf : s'.scope.frames = .empty) (hh : s'.heap = (s.heap.alloc n).2)
    (hb : ∀ id o, s'.bindings.get id = .ok o → s.bindings.get id = .ok o) : s'.Good e h₀ := by
  have hbef := s.heap.before_alloc n
  refine ⟨hf, ?_, fun o ho ho' => ?_, fun id o ho => ?_⟩
  · exact hh ▸ hs.size.trans hbef.size
  · rw [hh] at ho' ⊢
    by_cases hlt : o < s.heap.size
    · rw [Heap.node_alloc_of_lt n hlt]
      exact (hs.node o ho hlt).later hbef
    · have he : o = s.heap.size := by
        rw [Heap.size_alloc] at ho'
        exact Nat.le_antisymm (Nat.le_of_lt_succ ho') (Nat.le_of_not_lt hlt)
      rw [he, Heap.node_alloc_new]
      exact hn
  · obtain ⟨hnew, hbind⟩ := hs.bound id o (hb id o ho)
    rw [hh]
    refine ⟨hnew.later hbef, ?_⟩
    rwa [hbef.type o (hnew o rfl).2]

/-- The innermost object that is read is bound. -/
theorem bind (hs : s.Good e h₀) (hp : Heap.New h₀ s.heap (some p))
    (hb : ∀ id ps, s.bindings.pending = some id :: ps → e.Bindable (s.heap.typeOf p)) :
    ReadState.Good e h₀ { s with bindings := s.bindings.bind p } := by
  refine ⟨hs.frames, hs.size, hs.node, fun id o ho => ?_⟩
  unfold Bindings.bind at ho
  cases hpend : s.bindings.pending with
  | nil =>
    simp only [hpend] at ho
    exact hs.bound id o ho
  | cons i ps =>
    cases i with
    | none =>
      simp only [hpend] at ho
      exact hs.bound id o ho
    | some id' =>
      simp only [hpend, Bindings.get_eq_ok, Array.getElem?_setIfInBounds] at ho
      split at ho
      · split at ho <;> cases ho
        exact ⟨hp, hb id' ps hpend⟩
      · exact hs.bound id o (Bindings.get_eq_ok.2 ho)

end ReadState.Good

namespace Reading

variable {α : Type} {r r' : ReadState}

/-- What a reading of the input changes. -/
theorem scan_eq_ok {x : Scan α} {a : α} :
    scan x r = .ok a r' ↔ ∃ i, x r.input = .ok a i ∧ r' = { r with input := i } := by
  unfold scan
  cases x r.input with
  | ok b i =>
    constructor
    · rintro ⟨⟩
      exact ⟨i, rfl, rfl⟩
    · rintro ⟨_, ⟨⟩, rfl⟩
      rfl
  | error err i => simp

theorem count_eq_ok {n : Nat} : count r = .ok n r' ↔
    ∃ i, (BitVec.toNat <$> Input.var .u32) r.input = .ok n i ∧ r' = { r with input := i } := by
  refine Iff.trans ?_ (scan_eq_ok (x := BitVec.toNat <$> Input.var .u32))
  constructor
  · intro h
    obtain ⟨v, r₁, h₁, h₂⟩ := bind_eq_ok.1 h
    cases h₂
    obtain ⟨i, hi, rfl⟩ := scan_eq_ok.1 h₁
    exact scan_eq_ok.2 ⟨i, map_of_ok hi, rfl⟩
  · intro h
    obtain ⟨i, hi, rfl⟩ := scan_eq_ok.1 h
    obtain ⟨v, hv, rfl⟩ := map_eq_ok.1 hi
    exact (bind_of_ok (scan_eq_ok.2 ⟨i, hv, rfl⟩)).trans rfl

theorem marker_eq_ok {m : Marker} (hx : marker r = .ok m r') :
    ∃ i, r' = { r with input := i } := by
  obtain ⟨code, r₁, h₁, h₂⟩ := bind_eq_ok.1 hx
  cases hm : Marker.ofCode? code with
  | none =>
    rw [hm] at h₂
    cases h₂
  | some m' =>
    rw [hm] at h₂
    cases h₂
    exact (scan_eq_ok.1 h₁).imp fun _ => And.right

theorem earlier_eq_ok (hx : earlier r = .ok o r') :
    ∃ i id, r' = { r with input := i } ∧ r.bindings.get id = .ok o := by
  obtain ⟨id, r₁, h₁, h₂⟩ := bind_eq_ok.1 hx
  obtain ⟨i, -, rfl⟩ := count_eq_ok.1 h₁
  rw [get_bind] at h₂
  obtain ⟨ho, rfl⟩ := attempt_eq_ok.1 h₂
  exact ⟨i, id, rfl, ho⟩

end Reading

/-! ## One level -/

/-- Whether a reading that succeeds leaves a good state and gives what is said. -/
def Upholds {α : Type} (e : Engine) (h₀ : Heap) (x : Reading α) (Q : α → Heap → Prop) : Prop :=
  ∀ s a s', ReadState.Good e h₀ s → x s = .ok a s' →
    s'.Good e h₀ ∧ s.heap.Before s'.heap ∧ s'.bindings.pending = s.bindings.pending ∧ Q a s'.heap

/-- Whether objects that are added have the class that is asked for. -/
def UpholdsNested (e : Engine) (h₀ : Heap)
    (nested : ClassInfo → Serializer → Option Nat → Reading ObjId) : Prop :=
  ∀ c ser id, e.registry.Gives c ser → (id ≠ none → e.Bindable c.type) →
    Upholds e h₀ (nested c ser id) fun o h => Heap.New h₀ h (some o) ∧ h.typeOf o = c.type

section
variable {nested : ClassInfo → Serializer → Option Nat → Reading ObjId} {s s' : ReadState}
  {c : ClassInfo} {ser : Serializer} {slot : Slot}

theorem ReadState.Good.input (hs : s.Good e h₀) (i : Input) :
    ReadState.Good e h₀ { s with input := i } :=
  hs.congr hs.frames rfl fun _ _ => id

/-- Reading the number of an object gives one that was added. -/
theorem upholds_earlier : Upholds e h₀ Reading.earlier fun o h =>
    Heap.New h₀ h (some o) ∧ e.Bindable (h.typeOf o) := by
  intro s o s' hs hx
  obtain ⟨i, id, rfl, ho⟩ := Reading.earlier_eq_ok hx
  exact ⟨hs.input i, .refl _, rfl, hs.bound id o ho⟩

theorem UpholdsNested.fresh (hn : UpholdsNested e h₀ nested) (hc : e.registry.Gives c ser)
    (hb : e.Bindable c.type) : Upholds e h₀ (Reading.freshVia nested c ser) fun o h =>
      Heap.New h₀ h (some o) ∧ h.typeOf o = c.type := by
  intro s o s' hs hx
  obtain ⟨id, s₁, h₁, h₂⟩ := bind_eq_ok.1 hx
  cases h₁
  have hs₁ : ReadState.Good e h₀ { s with bindings := s.bindings.reserve.2 } := by
    refine hs.congr hs.frames rfl fun id o ho => ?_
    rw [Bindings.get_eq_ok] at ho ⊢
    simp only [Bindings.reserve, Array.getElem?_push] at ho
    split at ho
    · cases ho
    · exact ho
  exact hn c ser (some s.bindings.reserve.1) hc (fun _ => hb)
    { s with bindings := s.bindings.reserve.2 } o s' hs₁ h₂

/-- **A value of a class that may be null is null or of that class** if all numbers
    are of it. -/
theorem UpholdsNested.nullable (hn : UpholdsNested e h₀ nested) (hc : e.registry.Gives c ser)
    (hb : e.Bindable c.type) (ht : ∀ t, e.Bindable t → t = c.type) :
    Upholds e h₀ (Reading.nullableVia nested c ser) fun v h =>
      ∀ o, v = some o → Heap.New h₀ h v ∧ h.typeOf o = c.type := by
  intro s v s' hs hx
  obtain ⟨m, s₁, h₁, h₂⟩ := bind_eq_ok.1 hx
  obtain ⟨i, rfl⟩ := Reading.marker_eq_ok h₁
  have hs₁ := hs.input i
  cases m with
  | null =>
    cases h₂
    exact ⟨hs₁, .refl _, rfl, by simp⟩
  | back =>
    obtain ⟨o, s₂, h₃, h₄⟩ := bind_eq_ok.1 h₂
    cases h₄
    obtain ⟨hs', hbef, hp, hnew, hbind⟩ := upholds_earlier _ o s' hs₁ h₃
    refine ⟨hs', hbef, hp, ?_⟩
    rintro o ⟨⟩
    exact ⟨hnew, ht _ hbind⟩
  | plain =>
    obtain ⟨o, s₂, h₃, h₄⟩ := bind_eq_ok.1 h₂
    cases h₄
    obtain ⟨hs', hbef, hp, hnew, htype⟩ := hn c ser none hc (by simp) _ o s' hs₁ h₃
    refine ⟨hs', hbef, hp, ?_⟩
    rintro o ⟨⟩
    exact ⟨hnew, htype⟩
  | fresh =>
    obtain ⟨o, s₂, h₃, h₄⟩ := bind_eq_ok.1 h₂
    cases h₄
    obtain ⟨hs', hbef, hp, hnew, htype⟩ := hn.fresh hc hb _ o s' hs₁ h₃
    refine ⟨hs', hbef, hp, ?_⟩
    rintro o ⟨⟩
    exact ⟨hnew, htype⟩

theorem Engine.tracks_of_untracked (htr : e.config.trackRef = false) (c : ClassInfo) :
    e.tracks c = false := by
  simp [tracks, htr]

/-- An object of a class that is not tracked is read without a number. -/
theorem Reading.objectVia_of_not_tracks
    (nested : ClassInfo → Serializer → Option Nat → Reading ObjId) (ht : e.tracks c = false) :
    objectVia e nested c ser = nested c ser none := by
  unfold objectVia
  rw [if_neg (by simp [ht])]

/-- **A value that comes with its type** is null or an object of the class that has the id. -/
theorem Reading.anyVia_eq_ok (he : e.registry.Sound) {v : Value}
    (hx : anyVia e nested s = .ok v s') : ∃ id i,
      (BitVec.toNat <$> Input.var .u32) s.input = .ok id i ∧
      (id = 0 ∧ v = none ∧ s' = { s with input := i } ∨ ∃ c ser o, id = c.id + 1 ∧
        e.registry.Gives c ser ∧ v = some o ∧
        objectVia e nested c ser { s with input := i } = .ok o s') := by
  obtain ⟨id, s₁, h₁, hx⟩ := bind_eq_ok.1 hx
  obtain ⟨i, hi, rfl⟩ := count_eq_ok.1 h₁
  refine ⟨id, i, hi, ?_⟩
  split at hx
  · next hid =>
    cases hx
    exact Or.inl ⟨hid, rfl, rfl⟩
  · next hid =>
    obtain ⟨c, s₂, h₂, hx⟩ := bind_eq_ok.1 hx
    obtain ⟨hc, rfl⟩ := attempt_eq_ok.1 h₂
    obtain ⟨ser, s₃, h₃, hx⟩ := bind_eq_ok.1 hx
    obtain ⟨hser, rfl⟩ := attempt_eq_ok.1 h₃
    obtain ⟨o, ho, rfl⟩ := map_eq_ok.1 hx
    have hid' := Registry.id_of_classOfId hc
    exact Or.inr ⟨c, ser, o, by omega, he.gives_of_id hc hser, rfl, ho⟩

/-- It is of that class. -/
theorem UpholdsNested.object_of_untracked (hn : UpholdsNested e h₀ nested)
    (hc : e.registry.Gives c ser) (ht : e.tracks c = false) :
    Upholds e h₀ (Reading.objectVia e nested c ser) fun o h =>
      Heap.New h₀ h (some o) ∧ h.typeOf o = c.type := by
  intro s o s' hs hx
  rw [Reading.objectVia_of_not_tracks _ ht] at hx
  exact hn c ser none hc (by simp) s o s' hs hx

/-- Any other object was added, at least. -/
theorem UpholdsNested.object (hn : UpholdsNested e h₀ nested) (hc : e.registry.Gives c ser) :
    Upholds e h₀ (Reading.objectVia e nested c ser) fun o h => Heap.New h₀ h (some o) := by
  intro s o s' hs hx
  unfold Reading.objectVia at hx
  by_cases ht : e.tracks c = true
  · rw [if_pos ht] at hx
    have htrack : e.config.trackRef = true := by
      unfold Engine.tracks at ht
      exact (Bool.and_eq_true_iff.1 ht).1
    have hb : e.Bindable c.type := fun h => by simp [htrack] at h
    obtain ⟨m, s₁, h₁, h₂⟩ := bind_eq_ok.1 hx
    obtain ⟨i, rfl⟩ := Reading.marker_eq_ok h₁
    cases m with
    | back =>
      obtain ⟨hs', hbef, hp, hnew, -⟩ := upholds_earlier _ o s' (hs.input i) h₂
      exact ⟨hs', hbef, hp, hnew⟩
    | fresh =>
      obtain ⟨hs', hbef, hp, hnew, -⟩ := hn.fresh hc hb _ o s' (hs.input i) h₂
      exact ⟨hs', hbef, hp, hnew⟩
    | null => cases h₂
    | plain => cases h₂
  · rw [if_neg ht] at hx
    obtain ⟨hs', hbef, hp, hnew, -⟩ := hn c ser none hc (by simp) s o s' hs hx
    exact ⟨hs', hbef, hp, hnew⟩

/-- **A value that comes with its type was added.** -/
theorem UpholdsNested.any (hn : UpholdsNested e h₀ nested) (he : e.registry.Sound) :
    Upholds e h₀ (Reading.anyVia e nested) fun v h => Heap.New h₀ h v := by
  intro s v s' hs hx
  obtain ⟨_, i, -, ⟨-, rfl, rfl⟩ | ⟨c, ser, o, -, hc, rfl, ho⟩⟩ := Reading.anyVia_eq_ok he hx
  · exact ⟨hs.input i, .refl _, rfl, by rintro o ⟨⟩⟩
  · exact hn.object hc { s with input := i } o s' (hs.input i) ho

/-- **What is read on a side fits it** if the engine is guarded. -/
theorem UpholdsNested.side (hn : UpholdsNested e h₀ nested) (he : e.registry.Sound)
    (hg : e.Guarded) (hb : e.registry.HasSide b) {target : Option (ClassInfo × Serializer)}
    (ht : b.type = target.map (·.1.type))
    (hgives : ∀ c ser, target = some (c, ser) → e.registry.Gives c ser) (side : Side) :
    Upholds e h₀ (Reading.sideVia e nested ⟨target, b.nullable, side⟩) fun v h =>
      Heap.Fits h₀ h b v := by
  intro s v s' hs hx
  cases target with
  | none =>
    obtain ⟨hs', hbef, hp, hnew⟩ := hn.any he s v s' hs hx
    refine ⟨hs', hbef, hp, ⟨fun _ => hg.classless b hb ht, fun o t _ hbt => ?_⟩, hnew⟩
    cases ht.symm.trans hbt
  | some target =>
    obtain ⟨c, ser⟩ := target
    have hc := hgives c ser rfl
    have htype : ∀ t, b.type = some t → t = c.type := fun t hbt =>
      Option.some.inj (hbt.symm.trans ht)
    cases hnull : b.nullable with
    | true =>
      simp only [Reading.sideVia, hnull, if_true] at hx
      cases htr : e.config.trackRef with
      | true =>
        have := (hg.tracked htr b c.type hb ht).1
        rw [hnull] at this
        cases this
      | false =>
        have hbind : e.Bindable c.type := fun _ b' t' hb' hnull' hbt' =>
          hg.untracked htr b b' c.type t' hb hb' hnull hnull' ht hbt'
        obtain ⟨hs', hbef, hp, hv⟩ := hn.nullable hc hbind
          (fun t hbt => hbt htr b c.type hb hnull ht) s v s' hs hx
        refine ⟨hs', hbef, hp, ⟨fun _ => hnull, fun o t ho hbt => ?_⟩, fun o ho => ?_⟩
        · rw [htype t hbt]
          exact (hv o ho).2
        · exact (hv o ho).1 o ho
    | false =>
      simp only [Reading.sideVia, hnull] at hx
      obtain ⟨o, ho, rfl⟩ := map_eq_ok.1 hx
      have htrack : e.tracks c = false := by
        unfold Engine.tracks
        cases htr : e.config.trackRef with
        | false => rfl
        | true =>
          obtain ⟨-, type, hleaf⟩ := hg.tracked htr b c.type hb ht
          cases he.shape hc with
          | leaf _ _ hc => simp [hc]
          | map hc => cases hleaf.symm.trans hc
      obtain ⟨hs', hbef, hp, hnew, hty⟩ := hn.object_of_untracked hc htrack s o s' hs ho
      refine ⟨hs', hbef, hp, ⟨by simp, ?_⟩, hnew⟩
      rintro _ t ⟨⟩ hbt
      rw [htype t hbt]
      exact hty

/-! ## Containers -/

/-- Without frames a side is what its binding says. -/
theorem Slot.resolve_setup (r : Registry) (b : SideBinding)
    (target : Option (ClassInfo × Serializer)) (side : Side) :
    Slot.resolve r .empty none side (b.setup target) = .ok ⟨target, b.nullable, side⟩ := by
  cases target <;> rfl

theorem resolveSlots_setup (r : Registry) (b b' : SideBinding)
    (key value : Option (ClassInfo × Serializer)) :
    resolveSlots r .empty [] (b.setup key) (b'.setup value) =
      .ok (⟨key, b.nullable, .key⟩, ⟨value, b'.nullable, .value⟩, .unknown) := by
  unfold resolveSlots
  rw [List.getElem?_nil, List.getElem?_nil, Slot.resolve_setup, Slot.resolve_setup]
  rfl

/-- A change that keeps the frames away. -/
theorem ReadState.Good.inScope (hs : s.Good e h₀) {change : Scope → Scope}
    (hc : (change s.scope).frames = .empty) : ReadState.Good e h₀ (inScope change s) :=
  hs.congr hc rfl fun _ _ => id

theorem Frames.truncate_empty (n : Nat) : Frames.empty.truncate n = .empty := by
  simp [Frames.truncate, Frames.empty]

/-- A declaration that says nothing changes nothing. -/
theorem Upholds.declaring_unknown {α : Type} {x : Reading α} {Q : α → Heap → Prop}
    (hx : Upholds e h₀ x Q) : Upholds e h₀ (declaring .unknown x) Q := by
  intro s a s' hs hd
  obtain ⟨s₁, h₁, rfl⟩ := declaring_eq_ok.1 hd
  obtain ⟨hs₁, hbef, hp, hQ⟩ := hx _ a s₁ (hs.inScope hs.frames) h₁
  refine ⟨hs₁.inScope ?_, hbef, hp, hQ⟩
  show Frames.truncate s₁.scope.frames _ = _
  rw [hs₁.frames, Frames.truncate_empty]

/-- An entry that fits is put into a container. -/
theorem ReadState.Good.put (hs : s.Good e h₀) {ct : Container} {reg : Registration}
    (hp : Heap.New h₀ s.heap (some p)) (hct : s.heap.node p = .container ct)
    (hreg : e.registry.find? (.container ct.type) = some reg) {k x : Value}
    (hk : Heap.Fits h₀ s.heap reg.binding.key k) (hx : Heap.Fits h₀ s.heap reg.binding.value x)
    (n : Nat) :
    ReadState.Good e h₀ { s with heap := (s.heap.insert p k x).2, inserted := n } := by
  have hbef := s.heap.before_insert p k x
  have hlt : p < s.heap.size := (hp p rfl).2
  have hsize : (s.heap.insert p k x).2.size = s.heap.size := Heap.size_insert k x
  refine ⟨hs.frames, hs.size.trans hbef.size, fun o ho ho' => ?_, fun id o ho => ?_⟩
  · show Heap.Proper e.registry h₀ (s.heap.insert p k x).2 ((s.heap.insert p k x).2.node o)
    by_cases hop : o = p
    · subst hop
      have hnode := hs.node o ho hlt
      rw [hct] at hnode
      rw [Heap.node_insert_self k x hct hlt]
      exact hnode.insert hreg hk hx
    · rw [Heap.node_insert_of_ne k x hop]
      exact (hs.node o ho (hsize ▸ ho')).later hbef
  · obtain ⟨hnew, hbind⟩ := hs.bound id o ho
    refine ⟨hnew.later hbef, ?_⟩
    show e.Bindable ((s.heap.insert p k x).2.typeOf o)
    rwa [hbef.type o (hnew o rfl).2]

/-- One more entry is read before the others. -/
theorem Reading.entriesVia_succ_eq_ok {keySlot valueSlot : Slot} {keyType : Declared} {n : Nat}
    (hx : entriesVia e nested keySlot valueSlot keyType p (n + 1) s = .ok () s') :
    ∃ k s₁ v s₂, declaring keyType (sideVia e nested keySlot) s = .ok k s₁ ∧
      sideVia e nested valueSlot s₁ = .ok v s₂ ∧
      entriesVia e nested keySlot valueSlot keyType p n { s₂ with
        heap := (s₂.heap.insert p k v).2
        inserted := s₂.inserted + 1 } = .ok () s' := by
  obtain ⟨k, s₁, h₁, hx⟩ := bind_eq_ok.1 hx
  obtain ⟨v, s₂, h₂, hx⟩ := bind_eq_ok.1 hx
  obtain ⟨_, s₃, h₃, hx⟩ := bind_eq_ok.1 hx
  cases h₃
  exact ⟨k, s₁, v, s₂, h₁, h₂, hx⟩

/-- **Entries that are read fit their container.** -/
theorem UpholdsNested.entries (hn : UpholdsNested e h₀ nested) (he : e.registry.Sound)
    (hg : e.Guarded) {reg : Registration} {type : ContainerType}
    (hreg : e.registry.find? (.container type) = some reg)
    (hkey : e.registry.HasSide reg.binding.key) (hvalue : e.registry.HasSide reg.binding.value)
    {key value : Option (ClassInfo × Serializer)}
    (hkt : reg.binding.key.type = key.map (·.1.type))
    (hvt : reg.binding.value.type = value.map (·.1.type))
    (hk : ∀ c ser, key = some (c, ser) → e.registry.Gives c ser)
    (hv : ∀ c ser, value = some (c, ser) → e.registry.Gives c ser) (n : Nat) {s s' : ReadState}
    (hs : s.Good e h₀) (hp : Heap.New h₀ s.heap (some p)) (ht : s.heap.typeOf p = .container type)
    (hx : Reading.entriesVia e nested ⟨key, reg.binding.key.nullable, .key⟩
      ⟨value, reg.binding.value.nullable, .value⟩ .unknown p n s = .ok () s') :
    s'.Good e h₀ ∧ s.heap.Before s'.heap ∧ s'.bindings.pending = s.bindings.pending := by
  induction n generalizing s with
  | zero =>
    cases hx
    exact ⟨hs, .refl _, rfl⟩
  | succ n ih =>
    obtain ⟨k, s₁, x, s₂, h₁, h₂, hl⟩ := Reading.entriesVia_succ_eq_ok hx
    obtain ⟨hs₁, hbef₁, hp₁, hfk⟩ :=
      (hn.side he hg hkey hkt hk .key).declaring_unknown s k s₁ hs h₁
    obtain ⟨hs₂, hbef₂, hp₂, hfx⟩ := hn.side he hg hvalue hvt hv .value s₁ x s₂ hs₁ h₂
    have hbef := hbef₁.trans hbef₂
    have ht₂ : s₂.heap.typeOf p = .container type := by rw [hbef.type p (hp p rfl).2, ht]
    obtain ⟨ct, hct, rfl⟩ := Heap.exists_container ht₂
    have hput := hs₂.put (hp.later hbef) hct hreg (hfk.later hbef₂) hfx (s₂.inserted + 1)
    have hbef₃ := s₂.heap.before_insert p k x
    obtain ⟨hs', hbef', hp'⟩ := ih hput ((hp.later hbef).later hbef₃)
      (by rw [← ht₂]; exact hbef₃.type p ((hp.later hbef) p rfl).2) hl
    exact ⟨hs', (hbef.trans hbef₃).trans hbef', hp'.trans (hp₂.trans hp₁)⟩

theorem Reading.mapVia_eq_ok {key value : SideSetup Serializer} {factory : Option ContainerType}
    (hx : Reading.mapVia e nested c key value factory s = .ok p s') :
    ∃ type i n slots s₁, c.containerType factory = .ok type ∧ p = s.heap.size ∧
      (BitVec.toNat <$> Input.var .u32) s.input = .ok n i ∧
      resolveSlots e.registry s.scope.frames s.scope.args key value = .ok slots ∧
      Reading.entriesVia e nested slots.1 slots.2.1 slots.2.2 p n
        { s with
          input := i
          heap := (s.heap.alloc (.container (.empty type))).2
          bindings := s.bindings.bind p } = .ok () s₁ ∧ s' = inScope Scope.popped s₁ := by
  obtain ⟨o, s₁, h₁, hx⟩ := bind_eq_ok.1 hx
  obtain ⟨type, s₂, h₂, h₃⟩ := bind_eq_ok.1 h₁
  obtain ⟨htype, rfl⟩ := attempt_eq_ok.1 h₂
  cases h₃
  obtain ⟨n, s₃, h₄, hx⟩ := bind_eq_ok.1 hx
  obtain ⟨i, hn, rfl⟩ := Reading.count_eq_ok.1 h₄
  rw [get_bind, get_bind] at hx
  obtain ⟨slots, s₄, h₅, h₆⟩ := bind_eq_ok.1 hx
  obtain ⟨hslots, rfl⟩ := attempt_eq_ok.1 h₅
  obtain ⟨_, s₅, h₇, h₈⟩ := bind_eq_ok.1 h₆
  cases h₇
  obtain ⟨_, s₆, h₉, h₁₀⟩ := bind_eq_ok.1 h₈
  cases h₁₀
  exact ⟨type, i, n, slots, s₆, htype, rfl, hn, hslots, h₉, rfl⟩

/-! ## All levels -/

/-- Whether a reading that succeeds finishes the innermost object that is read. -/
def Finishes (e : Engine) (h₀ : Heap) (type : ObjectType) (x : Reading ObjId) : Prop :=
  ∀ s id ps p s', ReadState.Good e h₀ s → s.bindings.pending = id :: ps →
    (id ≠ none → e.Bindable type) → x s = .ok p s' →
      s'.Good e h₀ ∧ s.heap.Before s'.heap ∧ s'.bindings.pending = ps ∧
        Heap.New h₀ s'.heap (some p) ∧ s'.heap.typeOf p = type

theorem Bindings.pending_bind {bs : Bindings} {id : Option Nat} {ps : List (Option Nat)}
    (hp : bs.pending = id :: ps) (o : ObjId) : (bs.bind o).pending = ps := by
  unfold Bindings.bind
  rw [hp]
  cases id <;> rfl

/-- A new object is added and bound. -/
theorem ReadState.Good.add (hs : s.Good e h₀) {n : Node}
    (hn : Heap.Proper e.registry h₀ (s.heap.alloc n).2 n) {id : Option Nat}
    {ps : List (Option Nat)} (hpend : s.bindings.pending = id :: ps)
    (hb : id ≠ none → e.Bindable n.type) (i : Input) :
    ReadState.Good e h₀ { s with
      input := i
      heap := (s.heap.alloc n).2
      bindings := s.bindings.bind s.heap.size } ∧
    Heap.New h₀ (s.heap.alloc n).2 (some s.heap.size) ∧
    (s.heap.alloc n).2.typeOf s.heap.size = n.type := by
  have htype : (s.heap.alloc n).2.typeOf s.heap.size = n.type := by
    rw [Heap.typeOf, Heap.node_alloc_new]
  have hnew : Heap.New h₀ (s.heap.alloc n).2 (some s.heap.size) := by
    rintro o ⟨⟩
    exact ⟨hs.size, by simp⟩
  have hs₁ : ReadState.Good e h₀ { s with
      input := i
      heap := (s.heap.alloc n).2 } :=
    hs.alloc hn hs.frames rfl fun _ _ ho => ho
  refine ⟨hs₁.bind hnew fun id' ps' hp' => ?_, hnew, htype⟩
  cases hpend.symm.trans hp'
  show e.Bindable ((s.heap.alloc n).2.typeOf s.heap.size)
  rw [htype]
  exact hb (by simp)

/-- A leaf is finished as one of its type. -/
theorem finishes_leaf {type : LeafType} (hk : e.registry.Knows (.leaf type)) :
    Finishes e h₀ (.leaf type) (completing (Reading.bodyVia e nested c (.leaf type))) := by
  intro s id ps p s' hs hpend hb hx
  obtain ⟨s₁, h₁, hs'⟩ := completing_eq_ok.1 hx
  obtain ⟨a, s₂, h₂, h₃⟩ := bind_eq_ok.1 h₁
  obtain ⟨i, hi, rfl⟩ := Reading.scan_eq_ok.1 h₂
  have ha : a.type = type := Reading.type_of_leaf hi
  cases h₃
  cases hs'.trans (if_pos rfl)
  subst ha
  obtain ⟨hs₁, hnew, htype⟩ := hs.add (n := .leaf a) ⟨hk, Or.inl ⟨a, rfl⟩⟩ hpend hb i
  exact ⟨hs₁, s.heap.before_alloc _, Bindings.pending_bind hpend _, hnew, htype⟩

/-- **A container is finished with entries that fit it.** -/
theorem UpholdsNested.map (hn : UpholdsNested e h₀ nested) (he : e.registry.Sound)
    (hg : e.Guarded) {reg : Registration} {type : ContainerType}
    {key value : Option (ClassInfo × Serializer)}
    (hreg : e.registry.find? (.container type) = some reg)
    (hkt : reg.binding.key.type = key.map (·.1.type))
    (hvt : reg.binding.value.type = value.map (·.1.type))
    (hk : ∀ c ser, key = some (c, ser) → e.registry.Gives c ser)
    (hv : ∀ c ser, value = some (c, ser) → e.registry.Gives c ser) :
    Finishes e h₀ (.container type) (completing (Reading.bodyVia e nested reg.toClassInfo
      (.map (reg.binding.key.setup key) (reg.binding.value.setup value) none))) := by
  intro s id ps p s' hs hpend hb hx
  have hgives := Registry.Gives.map hreg hkt hvt hk hv
  have hty := Registry.type_of_find? hreg
  obtain ⟨hbk, hbv⟩ := he.hasSide hreg hgives
  obtain ⟨s₁, h₁, hs'⟩ := completing_eq_ok.1 hx
  obtain ⟨type', i, n, slots, s₂, htype', rfl, -, hslots, h₂, rfl⟩ := Reading.mapVia_eq_ok h₁
  rw [Scope.args_of_empty hs.frames, hs.frames, resolveSlots_setup] at hslots
  cases hslots
  have hfac : type' = type :=
    Except.ok.inj (htype'.symm.trans (he.containerType_eq_ok hgives hty))
  subst hfac
  have hproper : Heap.Proper e.registry h₀ (s.heap.alloc (.container (.empty type'))).2
      (.container (.empty type')) := by
    refine ⟨⟨_, _, hgives, by simp [Node.type, hty]⟩, Or.inr ⟨_, rfl, fun reg' _ x hx => ?_⟩⟩
    rw [Container.entries_empty] at hx
    cases hx
  obtain ⟨hs₁, hnew, htype⟩ := hs.add hproper hpend (by simpa [Node.type] using hb) i
  obtain ⟨hs₂, hbef, hp⟩ := hn.entries he hg hreg hbk hbv hkt hvt hk hv n hs₁ hnew
    (by simpa [Node.type] using htype) h₂
  have hpend₂ : s₂.bindings.pending = ps := hp.trans (Bindings.pending_bind hpend _)
  -- it was bound before its entries were read
  have hne : ¬Building.waiting (inScope Scope.popped s₂) = Building.waiting s := by
    show ¬s₂.bindings.pending.length = s.bindings.pending.length
    simp [hpend₂, hpend]
  rw [if_neg hne] at hs'
  subst hs'
  refine ⟨hs₂.inScope ?_, (s.heap.before_alloc _).trans hbef, hpend₂, hnew.later hbef, ?_⟩
  · rw [Scope.popped_of_empty hs₂.frames, hs₂.frames]
  · show s₂.heap.typeOf s.heap.size = _
    rw [hbef.type _ (by simp), htype]
    simp [Node.type]

/-- **Objects are of the class that is asked for**, on all levels. -/
theorem upholdsNested_data (he : e.registry.Sound) (hg : e.Guarded) (levels : Nat) :
    UpholdsNested e h₀ (Reading.data e levels) := by
  induction levels with
  | zero =>
    intro c ser id _ _ s p s' _ hx
    cases hx
  | succ levels ih =>
    intro c ser id hc hb s p s' hs hx
    obtain ⟨-, s₁, h₁, rfl⟩ := descend_eq_ok.1 hx
    obtain ⟨_, s₂, h₂, h₃⟩ := bind_eq_ok.1 h₁
    cases h₂
    have hs₂ : ReadState.Good e h₀ { inScope Scope.deeper s with
        bindings := s.bindings.expect id } :=
      hs.congr hs.frames rfl fun _ _ ho => ho
    have hfin : Finishes e h₀ c.type (completing (Reading.bodyVia e (Reading.data e levels) c ser)) := by
      cases hc with
      | leaf hreg =>
        have hty := Registry.type_of_find? hreg
        rw [hty]
        exact finishes_leaf ⟨_, _, .leaf hreg, hty⟩
      | map hreg hkt hvt hk hv =>
        rw [Registry.type_of_find? hreg]
        exact ih.map he hg hreg hkt hvt hk hv
    obtain ⟨hs', hbef, hp, hnew, htype⟩ := hfin _ id s.bindings.pending p s₁ hs₂ rfl hb h₃
    exact ⟨hs'.inScope hs'.frames, hbef, hp, hnew, htype⟩

end

/-! ## Streams -/

/-- What a value leads to that was added was added too. -/
theorem ReadState.Good.leads {s : ReadState} (hs : s.Good e h₀)
    (hv : Heap.New h₀ s.heap v) (ho : s.heap.Leads v o) : h₀.size ≤ o ∧ o < s.heap.size := by
  induction ho with
  | self => exact hv _ rfl
  | @part o x p hx _ ih =>
    refine ih ?_
    obtain ⟨hge, hlt⟩ := hv o rfl
    obtain ⟨⟨c, ser, hc, htype⟩, ⟨a, ha⟩ | ⟨ct, hct, hall⟩⟩ := hs.node o hge hlt
    · simp [ha, Node.parts] at hx
    · obtain ⟨reg, hreg, rfl⟩ := hc.classOf
      rw [htype, hct] at hreg
      obtain ⟨y, hy, rfl | rfl⟩ := (Heap.mem_parts_container hct).1 hx
      · exact (hall reg hreg y hy).1.2
      · exact (hall reg hreg y hy).2.2

theorem ReadState.Good.knows {s : ReadState} (hs : s.Good e h₀) (hv : Heap.New h₀ s.heap v)
    (ho : s.heap.Leads v o) : e.registry.Knows (s.heap.typeOf o) :=
  (hs.node o (hs.leads hv ho).1 (hs.leads hv ho).2).1

theorem ReadState.Good.honours {s : ReadState} (hs : s.Good e h₀)
    (hv : Heap.New h₀ s.heap v) : s.heap.Honours e.registry v := by
  intro o c reg ho hc hreg x hx
  obtain ⟨hge, hlt⟩ := hs.leads hv ho
  obtain ⟨-, ⟨a, ha⟩ | ⟨c', hc', hall⟩⟩ := hs.node o hge hlt
  · cases hc.symm.trans ha
  · cases hc.symm.trans hc'
    exact ⟨(hall reg hreg x hx).1.1, (hall reg hreg x hx).2.1⟩

/-- A stream that is read holds null or a value that is read after the header. -/
theorem Engine.readStream_eq_ok {x : Reading Value} {i i' : Input}
    (hx : e.readStream h₀ x i = .ok (v, h) i') : ∃ null i₁, e.readHeader i = .ok null i₁ ∧
      (v = none ∧ h = h₀ ∧ i' = i₁ ∨ ∃ s, x (.start i₁ h₀) = .ok v s ∧ s.heap = h ∧ s.input = i') := by
  obtain ⟨null, i₁, hhead, hx⟩ := bind_eq_ok.1 hx
  refine ⟨null, i₁, hhead, ?_⟩
  cases null with
  | true =>
    cases hx
    exact Or.inl ⟨rfl, rfl, rfl⟩
  | false =>
    simp only [Bool.false_eq_true, if_false, reading] at hx
    split at hx
    · next s hv =>
      cases hx
      exact Or.inr ⟨s, hv, rfl, rfl⟩
    · cases hx

theorem Engine.deserialize_eq_ok {bs : Bytes} : e.deserialize h₀ bs = .ok (v, h) ↔
    ∃ i, e.readStream h₀ (Reading.any e) ((Input.ofBytes bs).withLayout e.config.native) =
      .ok (v, h) i := by
  rw [deserialize_eq_readStream, resultOf_eq_ok]

/-- **Whatever the bytes are, a guarded engine reads in a good state.** -/
theorem Engine.good_of_deserialize (he : e.registry.Sound) (hg : e.Guarded) {bs : Bytes}
    (hx : e.deserialize h₀ bs = .ok (v, h)) :
    ∃ s, ReadState.Good e h₀ s ∧ s.heap = h ∧ Heap.New h₀ h v := by
  obtain ⟨i', hx⟩ := deserialize_eq_ok.1 hx
  obtain ⟨_, i, -, ⟨rfl, rfl, -⟩ | ⟨s, hany, rfl, -⟩⟩ := readStream_eq_ok hx
  · exact ⟨_, .start (.ofBytes bs) _, rfl, by rintro o ⟨⟩⟩
  · have hstart : (ReadState.start i h₀).Good e h₀ := .start i h₀
    obtain ⟨hs, -, -, hnew⟩ := (upholdsNested_data he hg _).any he _ v s hstart hany
    exact ⟨s, hs, rfl, hnew⟩

/-- **What a guarded engine reads honours its bindings.** -/
theorem Engine.honours_of_guarded (he : e.registry.Sound) (hg : e.Guarded) {bs : Bytes}
    (hx : e.deserialize h₀ bs = .ok (v, h)) : h.Honours e.registry v := by
  obtain ⟨s, hs, rfl, hnew⟩ := good_of_deserialize he hg hx
  exact hs.honours hnew

end GraphWire

/-
  Numbers are places on the roll.

  A reader reserves a number when it reads the marker of a new object, and binds it when
  there is an object; what waits in between is a stack that the reading of each object
  pushes to once and pops from once, whatever the bytes are.  So the numbers that are
  bound are at all times those of the objects on the roll (`Alongside`), and a reader
  does what it would do by roll.  Numbers have 32 bits and begin anew after so many
  objects; then the last object with a number has it, here and there (`holder`).

  * `NestedAlongside.any` and the like: one step for each way of reading;
  * `nestedAlongside_data`: all levels, by induction;
  * `Engine.deserialize_by_roll`: whatever the bytes are, numbers stand for what is on
    the roll, and none is left unbound.
-/
import GraphWire.Proofs.Beside
import GraphWire.Proofs.Fidelity
import GraphWire.Proofs.Lookups
import GraphWire.Proofs.Refills
import GraphWire.Proofs.Rolls

namespace GraphWire

variable {α : Type}

/-! ## Readers beside the roll -/

/-- Whether two inputs are the same, with all that is ahead to be had. -/
def SameInput (i j : Input) : Prop := i = j ∧ i.Ready

/-- Whether a reading and a reading by roll are at the same point, where the bindings of
    the one are as they should be for the roll of the other. -/
structure Alongside (K : Bindings → List ObjId → Prop) (s : ReadState) (t : RollState) : Prop where
  input : s.input = t.input
  ready : t.input.Ready
  heap : s.heap = t.heap
  scope : s.scope = t.scope
  bindings : K s.bindings t.roll

/-- Whether all numbers are bound to those who have them on a roll, but for the last if it is
    reserved for an object to come. -/
structure Bindings.Follows (id : Option Nat) (waiting : List (Option Nat)) (b : Bindings)
    (roll : List ObjId) : Prop where
  size : b.bound.size = roll.length + id.toList.length
  bound : ∀ k < 2 ^ 32, k < roll.length → b.bound[k]? = some (holder roll k)
  reserved : ∀ i ∈ id, i = roll.length % 2 ^ 32
  pending : b.pending = waiting

/-- Whether all numbers are bound, but for that of the last object on the roll, which
    waits to be bound. -/
def Bindings.Lags (id : Option Nat) (waiting : List (Option Nat)) (o : ObjId) (b : Bindings)
    (roll : List ObjId) : Prop :=
  ∃ before, roll = before ++ (id.toList.map fun _ => o) ∧ b.Follows id (id :: waiting) before

/-- Whether a reading does the same as a reading by roll. -/
abbrev ByRoll (K K' : Bindings → List ObjId → Prop) (x : Reading α) (y : Rolling α) : Prop :=
  InStepTo .rolling (Alongside K) (fun _ => Alongside K') x y

section
variable {K K' : Bindings → List ObjId → Prop} {id : Option Nat} {waiting : List (Option Nat)}
  {o : ObjId}

theorem sameScope_alongside : SameScope (Alongside K) where
  scope _ _ h := h.scope
  change f _ _ h := { h with
    input := h.input
    ready := h.ready
    heap := h.heap
    scope := congrArg f h.scope
    bindings := h.bindings }

/-- What a reading of items does is the same again, and its errors are of its own. -/
theorem sameInput_scan {x : Scan α} (hx : x.Composed) : InStep .rolling SameInput x x := by
  rintro i _ ⟨rfl, hready⟩
  have hsteady : Scan.Steady [] x := Input.steady_of_composed hx
  have hxx := hsteady i i ⟨hready, hready, by simp, rfl⟩
  cases hr : x i with
  | ok a j =>
    rw [hr] at hxx
    cases hxx with
    | ok _ hj => exact .ok a ⟨rfl, hj.left⟩
  | error err j =>
    rw [hr] at hxx
    cases hxx with
    | error he =>
      refine .error (same_rolling ?_)
      rintro id rfl
      cases he.1
    | early he => exact absurd rfl he.1

theorem byRoll_scan {x : Scan α} (hx : x.Composed) :
    ByRoll K K (Reading.scan x) (Rolling.scan x) := by
  rintro ⟨i, heap, bindings, scope, inserted⟩ ⟨_, _, roll, _⟩ ⟨rfl, hready, rfl, rfl, hb⟩
  have hxx := sameInput_scan hx i i ⟨rfl, hready⟩
  unfold Reading.scan Rolling.scan
  dsimp only
  cases hr : x i with
  | ok a j =>
    rw [hr] at hxx
    cases hxx with
    | ok _ hj => exact .ok a ⟨rfl, hj.2, rfl, rfl, hb⟩
  | error err j =>
    rw [hr] at hxx
    cases hxx with
    | error he => exact .error he
    | early he => exact he.elim

theorem byRoll_count : ByRoll K K Reading.count Rolling.count :=
  (byRoll_scan (Input.composed_var .u32)).bind fun _ => .pure _

theorem byRoll_marker : ByRoll K K Reading.marker Rolling.marker := by
  refine (byRoll_scan Input.composed_octet).bind fun code => ?_
  cases Marker.ofCode? code with
  | some m => exact .pure m
  | none => exact .throw (same_rolling (by simp))

/-- A number that is read has 32 bits. -/
theorem byRoll_number : InStepTo .rolling (Alongside K) (fun i s t => i < 2 ^ 32 ∧ Alongside K s t)
    Reading.count Rolling.count :=
  (byRoll_scan (Input.composed_var .u32)).bind fun v => .pure_of _ fun _ _ hst => ⟨v.isLt, hst⟩

/-- **A number leads to the object that has it on the roll**, or is out of range. -/
theorem byRoll_earlier :
    ByRoll (Bindings.Follows none waiting) (Bindings.Follows none waiting) Reading.earlier
      Rolling.earlier := by
  refine byRoll_number.bind fun i => ?_
  rintro s t ⟨hi, hst⟩
  have hget : s.bindings.get i = (holder t.roll i).elim
      (.error (.refOutOfRange i t.roll.length)) .ok := by
    have hsize : s.bindings.bound.size = t.roll.length := hst.bindings.size
    unfold Bindings.get
    by_cases hlt : i < t.roll.length
    · rw [hst.bindings.bound i hi hlt]
      cases hholder : holder t.roll i with
      | none => exact absurd ((holder_eq_none_iff hi).1 hholder) (Nat.not_le_of_lt hlt)
      | some o => rfl
    · rw [(holder_eq_none_iff hi).2 (Nat.le_of_not_lt hlt),
        Array.getElem?_eq_none (hsize.trans_le (Nat.le_of_not_lt hlt)), hsize]
      rfl
  rw [get_bind, get_bind, hget]
  cases holder t.roll i with
  | none => exact .error (same_rolling (by simp))
  | some o => exact .ok o hst

theorem byRoll_putEntry (o : ObjId) (k v : Value) :
    ByRoll K K (Reading.putEntry o k v) (Rolling.putEntry o k v) := by
  rintro s t hst
  exact .ok () { hst with heap := congrArg (fun h : Heap => (h.insert o k v).2) hst.heap }

/-- An object that is created goes on the roll before its number is bound. -/
theorem byRoll_create (n : Node) :
    InStepTo .rolling (Alongside (Bindings.Follows id (id :: waiting)))
      (fun o => Alongside (Bindings.Lags id waiting o)) (newObject n)
      (Rolling.create id.isSome n) := by
  rintro ⟨i, heap, bindings, scope, inserted⟩ ⟨_, _, roll, _⟩ ⟨rfl, hready, rfl, rfl, hb⟩
  refine .ok _ ⟨rfl, hready, rfl, rfl, roll, ?_, hb⟩
  cases id with
  | none => simp
  | some id => rfl

/-- An object that is bound has its number at once. -/
theorem Bindings.Follows.bind {b : Bindings} {before : List ObjId}
    (hb : b.Follows id (id :: waiting) before) (o : ObjId) :
    (b.bind o).Follows none waiting (before ++ id.toList.map fun _ => o) := by
  obtain ⟨hsize, hbound, hid, hp⟩ := hb
  unfold Bindings.bind
  rw [hp]
  cases id with
  | none =>
    refine ⟨by simpa using hsize, ?_, by simp, rfl⟩
    simpa using hbound
  | some i =>
    have hi : i = before.length % 2 ^ 32 := hid i rfl
    have hsize : b.bound.size = before.length + 1 := hsize
    refine ⟨by simpa using hsize, fun k hk hlt => ?_, by simp, rfl⟩
    have hlt : k < before.length + 1 := by simpa using hlt
    show (b.bound.setIfInBounds i (some o))[k]? = some (holder (before ++ [o]) k)
    rw [Array.getElem?_setIfInBounds, holder_concat, ← hi]
    by_cases hik : i = k
    · rw [if_pos hik, if_pos hik, if_pos (by omega)]
    · rw [if_neg hik, if_neg hik]
      -- the last place has this number only if it is reserved
      have hne : k ≠ before.length := fun heq => hik (by rw [hi, ← heq, Nat.mod_eq_of_lt hk])
      exact hbound k hk (by omega)

/-- Where nothing waits and there are no more objects than numbers, the roll is bound. -/
theorem Bindings.Follows.eq_of_few {b : Bindings} {roll : List ObjId} (hb : b.Follows none [] roll)
    (hfew : roll.length ≤ 2 ^ 32) : b = ⟨(roll.map some).toArray, []⟩ := by
  obtain ⟨bound, pending⟩ := b
  obtain ⟨hsize, hbound, -, rfl⟩ := hb
  have hsize : bound.size = roll.length := hsize
  have harray : bound = (roll.map some).toArray := by
    refine Array.ext (by simpa using hsize) fun k hk _ => ?_
    have hlt : k < roll.length := hsize ▸ hk
    have hget := hbound k (hlt.trans_le hfew) hlt
    rw [Array.getElem?_eq_getElem hk, holder_eq_getElem? hfew, List.getElem?_eq_getElem hlt] at hget
    simpa using Option.some.inj hget
  rw [harray]

theorem Alongside.bind {s : ReadState} {t : RollState}
    (hst : Alongside (Bindings.Lags id waiting o) s t) :
    Alongside (Bindings.Follows none waiting) (Building.bind o s) t := by
  obtain ⟨hinput, hready, hheap, hscope, before, hroll, hb⟩ := hst
  exact ⟨hinput, hready, hheap, hscope, hroll ▸ hb.bind o⟩

end

/-! ## One level -/

/-- Whether nested objects are read as by roll, and leave no number reserved. -/
def NestedByRoll (e : Engine) (rn : ClassInfo → Serializer → Option Nat → Reading ObjId)
    (yn : ClassInfo → Serializer → Bool → Rolling ObjId) : Prop :=
  ∀ c ser id waiting, e.registry.Gives c ser →
    ByRoll (Bindings.Follows id waiting) (Bindings.Follows none waiting) (rn c ser id)
      (yn c ser id.isSome)

/-- Whether a reading does the same as one by roll, whatever waits. -/
abbrev AlwaysByRoll (x : Reading α) (y : Rolling α) : Prop :=
  ∀ waiting, ByRoll (Bindings.Follows none waiting) (Bindings.Follows none waiting) x y

section
variable {e : Engine} {rn : ClassInfo → Serializer → Option Nat → Reading ObjId}
  {yn : ClassInfo → Serializer → Bool → Rolling ObjId} {c : ClassInfo} {ser : Serializer}

namespace NestedByRoll

/-- The number that is reserved for a new object is that of the next place on the roll. -/
theorem fresh (hn : NestedByRoll e rn yn) (hg : e.registry.Gives c ser) :
    AlwaysByRoll (Reading.freshVia rn c ser) (yn c ser true) := by
  rintro waiting s t ⟨hinput, hready, hheap, hscope, hsize, hbound, -, hp⟩
  have hsize : s.bindings.bound.size = t.roll.length := hsize
  have hreserved : Bindings.Follows (some s.bindings.reserve.1) waiting s.bindings.reserve.2
      t.roll := by
    refine ⟨by simpa [Bindings.reserve] using hsize, fun k hk hlt => ?_, ?_, hp⟩
    · show (s.bindings.bound.push none)[k]? = _
      rw [Array.getElem?_push, if_neg (by omega), hbound k hk hlt]
    · rintro _ ⟨⟩
      exact (BitVec.toNat_ofNat ..).trans (congrArg (· % 2 ^ 32) hsize)
  exact hn c ser (some s.bindings.reserve.1) waiting hg
    { s with bindings := s.bindings.reserve.2 } t ⟨hinput, hready, hheap, hscope, hreserved⟩

theorem nullable (hn : NestedByRoll e rn yn) (hg : e.registry.Gives c ser) :
    AlwaysByRoll (Reading.nullableVia rn c ser) (Rolling.nullableVia yn c ser) := by
  intro waiting
  refine byRoll_marker.bind fun m => ?_
  cases m with
  | null => exact .pure _
  | back => exact byRoll_earlier.bind fun _ => .pure _
  | plain => exact (hn c ser none waiting hg).bind fun _ => .pure _
  | fresh => exact (hn.fresh hg waiting).bind fun _ => .pure _

theorem object (hn : NestedByRoll e rn yn) (hg : e.registry.Gives c ser) :
    AlwaysByRoll (Reading.objectVia e rn c ser) (Rolling.objectVia e yn c ser) := by
  intro waiting
  unfold Reading.objectVia Rolling.objectVia
  by_cases ht : e.tracks c = true
  · rw [if_pos ht, if_pos ht]
    refine byRoll_marker.bind fun m => ?_
    cases m with
    | back => exact byRoll_earlier
    | fresh => exact hn.fresh hg waiting
    | null | plain => exact .throw (same_rolling (by simp))
  · rw [if_neg ht, if_neg ht]
    exact hn c ser none waiting hg

variable (he : e.registry.Sound)
include he

theorem any (hn : NestedByRoll e rn yn) :
    AlwaysByRoll (Reading.anyVia e rn) (Rolling.anyVia e yn) := by
  intro waiting
  refine byRoll_count.bind fun id => ?_
  by_cases hid : id = 0
  · rw [if_pos hid, if_pos hid]
    exact .pure _
  rw [if_neg hid, if_neg hid]
  refine .attempt_bind ?_ fun c hc => .attempt_bind ?_ fun ser hser => ?_
  · exact fun err herr => same_rolling (Registry.classOfId_ne_refUnfinished herr)
  · exact fun err herr => same_rolling (he.serializer_ne_refUnfinished herr)
  · exact (hn.object (he.gives_of_id hc hser) waiting).bind fun _ => .pure _

theorem declared (hn : NestedByRoll e rn yn) (ty : Declared) :
    AlwaysByRoll (Reading.declaredVia e rn ty) (Rolling.declaredVia e yn ty) := by
  intro waiting
  refine .declaring sameScope_alongside (fun _ => sameScope_alongside) ?_
  cases ty.type?.filter e.registry.isFinal with
  | none => exact hn.any he waiting
  | some type =>
    refine .attempt_bind ?_ fun c hc => .attempt_bind ?_ fun ser hser => ?_
    · exact fun err herr => same_rolling (Registry.classOf_ne_refUnfinished herr)
    · exact fun err herr => same_rolling (he.serializer_ne_refUnfinished herr)
    · exact hn.nullable (he.gives hc hser) waiting

theorem side (hn : NestedByRoll e rn yn) {slot : Slot}
    (hg : ∀ c ser, slot.target = some (c, ser) → e.registry.Gives c ser) :
    AlwaysByRoll (Reading.sideVia e rn slot) (Rolling.sideVia e yn slot) := by
  intro waiting
  unfold Reading.sideVia Rolling.sideVia
  cases ht : slot.target with
  | none => exact hn.any he waiting
  | some target =>
    obtain ⟨c, ser⟩ := target
    dsimp only
    by_cases hnull : slot.nullable = true
    · rw [if_pos hnull, if_pos hnull]
      exact hn.nullable (hg c ser ht) waiting
    · rw [if_neg hnull, if_neg hnull]
      exact (hn.object (hg c ser ht) waiting).map _

theorem entries (hn : NestedByRoll e rn yn) {keySlot valueSlot : Slot}
    (hk : ∀ c ser, keySlot.target = some (c, ser) → e.registry.Gives c ser)
    (hv : ∀ c ser, valueSlot.target = some (c, ser) → e.registry.Gives c ser)
    (keyType : Declared) (o : ObjId) (n : Nat) :
    AlwaysByRoll (Reading.entriesVia e rn keySlot valueSlot keyType o n)
      (Rolling.entriesVia e yn keySlot valueSlot keyType o n) := by
  intro waiting
  induction n with
  | zero => exact .pure _
  | succ n ih =>
    have hkey : ByRoll (Bindings.Follows none waiting) (Bindings.Follows none waiting)
        (declaring keyType (Reading.sideVia e rn keySlot))
        (declaring keyType (Rolling.sideVia e yn keySlot)) :=
      .declaring sameScope_alongside (fun _ => sameScope_alongside) (hn.side he hk waiting)
    refine hkey.bind fun k => (hn.side he hv waiting).bind fun v => ?_
    exact (byRoll_putEntry o k v).bind fun _ => ih

end NestedByRoll

/-! ## Objects -/

/-- **What waits is bound once**: at the end, unless that was done on the way. -/
theorem byRoll_completing {id : Option Nat} {waiting : List (Option Nat)} {x : Reading ObjId}
    {y : Rolling ObjId}
    (hx : InStepTo .rolling (Alongside (Bindings.Follows id (id :: waiting)))
      (fun o s t => Alongside (Bindings.Lags id waiting o) s t ∨
        Alongside (Bindings.Follows none waiting) s t) x y) :
    ByRoll (Bindings.Follows id (id :: waiting)) (Bindings.Follows none waiting) (completing x)
      y := by
  intro s t hst
  have hxy := hx s t hst
  have hw : Building.waiting s = (id :: waiting).length := congrArg List.length hst.bindings.pending
  rw [completing_apply]
  generalize x s = r, y t = r' at hxy ⊢
  cases hxy with
  | @ok o s₁ t₁ hst₁ =>
    refine .ok o ?_
    rcases hst₁ with hlag | hdone
    · obtain ⟨before, -, hb⟩ := hlag.bindings
      have hw₁ : Building.waiting s₁ = (id :: waiting).length := congrArg List.length hb.pending
      rw [if_pos (hw₁.trans hw.symm)]
      exact hlag.bind
    · have hw₁ : Building.waiting s₁ = waiting.length := congrArg List.length hdone.bindings.pending
      rw [if_neg (by rw [hw₁, hw, List.length_cons]; omega)]
      exact hdone
  | error he => exact .error he
  | early he => exact .early he

theorem NestedByRoll.map (hn : NestedByRoll e rn yn) (he : e.registry.Sound)
    {key value : SideSetup Serializer} (hk : e.registry.SideGives key)
    (hv : e.registry.SideGives value) (factory : Option ContainerType) (id : Option Nat)
    (waiting : List (Option Nat)) :
    ByRoll (Bindings.Follows id (id :: waiting)) (Bindings.Follows none waiting)
      (Reading.mapVia e rn c key value factory)
      (Rolling.mapVia e yn c id.isSome key value factory) := by
  have hcreate : InStepTo .rolling (Alongside (Bindings.Follows id (id :: waiting)))
      (fun o => Alongside (Bindings.Lags id waiting o)) (newContainer c factory)
      (Rolling.createContainer c id.isSome factory) :=
    .bind (.attempt fun err herr => same_rolling (containerType_ne_refUnfinished herr))
      fun type => byRoll_create _
  refine hcreate.bind fun o => byRoll_count.bind fun n => .get_bind fun s t hst => ?_
  have hargs : declaredArgs s = declaredArgs t := by
    unfold declaredArgs
    rw [sameScope_alongside.scope s t hst]
  rw [hargs]
  refine .get_bind fun s t hst => ?_
  rw [hst.scope]
  refine .attempt_bind (fun err herr => same_rolling (he.resolveSlots_ne_refUnfinished herr)) ?_
  rintro ⟨keySlot, valueSlot, keyType⟩ hslots
  obtain ⟨hgk, hgv⟩ := gives_of_resolveSlots he hk hv hslots
  -- from here on the number of the container is bound
  have hrest : ByRoll (Bindings.Follows none waiting) (Bindings.Follows none waiting)
      (do
        Reading.entriesVia e rn keySlot valueSlot keyType o n
        modify popFrame
        return o)
      (do
        Rolling.entriesVia e yn keySlot valueSlot keyType o n
        modify popFrame
        return o) := by
    have hpop : ByRoll (Bindings.Follows none waiting) (Bindings.Follows none waiting)
        (modify popFrame : Reading Unit) (modify popFrame : Rolling Unit) :=
      .modify (sameScope_alongside.change Scope.popped)
    exact (hn.entries he hgk hgv keyType o n waiting).bind fun _ => hpop.bind fun _ => .pure o
  exact fun s t hst => hrest (Building.bind o s) t hst.bind

theorem NestedByRoll.body (hn : NestedByRoll e rn yn) (he : e.registry.Sound)
    (hg : e.registry.Gives c ser) (id : Option Nat) (waiting : List (Option Nat)) :
    ByRoll (Bindings.Follows id (id :: waiting)) (Bindings.Follows none waiting)
      (completing (Reading.bodyVia e rn c ser)) (Rolling.bodyVia e yn c id.isSome ser) := by
  refine byRoll_completing ?_
  cases he.shape hg with
  | leaf _ hser =>
    subst hser
    have hcreate : ∀ a, InStepTo .rolling (Alongside (Bindings.Follows id (id :: waiting)))
        (fun o s t => Alongside (Bindings.Lags id waiting o) s t ∨
          Alongside (Bindings.Follows none waiting) s t) (newObject (.leaf a))
        (Rolling.create id.isSome (.leaf a)) :=
      fun a => (byRoll_create _).post fun o s t => Or.inl
    exact (byRoll_scan (Reading.composed_leaf _)).bind hcreate
  | map _ hser _ _ hk hv =>
    subst hser
    exact (hn.map he hk hv none id waiting).post fun o s t => Or.inr

end

/-! ## All levels -/

section
variable {e : Engine} (he : e.registry.Sound)
include he

/-- **Nested objects are read as by roll**, however deep. -/
theorem nestedByRoll_data (levels : Nat) :
    NestedByRoll e (Reading.data e levels) (Rolling.data e levels) := by
  induction levels with
  | zero => exact fun _ _ _ _ _ => .tooDeep sameScope_alongside fun _ => same_rolling (by simp)
  | succ levels ih =>
    intro c ser id waiting hg
    refine .descend sameScope_alongside (fun _ => sameScope_alongside)
      (fun _ => same_rolling (by simp)) ?_
    exact fun s t hst => ih.body he hg id waiting { s with bindings := s.bindings.expect id } t
      { hst with bindings := { hst.bindings with
        pending := congrArg (id :: ·) hst.bindings.pending } }

theorem byRoll_any : AlwaysByRoll (Reading.any e) (Rolling.any e) := by
  intro waiting s t hst
  unfold Reading.any Reading.withNested Rolling.any
  rw [hst.scope]
  exact (nestedByRoll_data he _).any he waiting s t hst

theorem byRoll_declared (ty : Declared) :
    AlwaysByRoll (Reading.declared e ty) (Rolling.declared e ty) := by
  intro waiting s t hst
  unfold Reading.declared Reading.withNested Rolling.declared
  rw [hst.scope]
  exact (nestedByRoll_data he _).declared he ty waiting s t hst

end

/-! ## Streams -/

namespace Engine

theorem alongside_start {i : Input} (hi : i.Ready) (h : Heap) :
    Alongside (Bindings.Follows none []) (.start i h) (.start i h) where
  input := rfl
  ready := hi
  heap := rfl
  scope := rfl
  bindings := ⟨rfl, fun k _ hk => absurd hk (Nat.not_lt_zero k), by simp, rfl⟩

theorem check_ne_refUnfinished {e : Engine} {hd : Header} {err : Error}
    (h : e.check hd = .error err) (id : Nat) : err ≠ .refUnfinished id := by
  rintro rfl
  unfold check ensure at h
  revert h
  split <;> split <;> split <;> simp [bind, Except.bind]

theorem sameInput_readHeader (e : Engine) : InStep .rolling SameInput e.readHeader e.readHeader :=
  (sameInput_scan Input.composed_octet).bind fun _ =>
    .bind (.attempt fun _ herr => same_rolling (check_ne_refUnfinished herr)) fun _ => .pure _

variable {x : Reading Value} {y : Rolling Value}

theorem sameInput_reading (hxy : AlwaysByRoll x y) (h : Heap) :
    InStep .rolling SameInput (reading h x) (rolling h y) := by
  rintro i _ ⟨rfl, hready⟩
  have hrun := hxy [] _ _ (alongside_start hready h)
  unfold reading rolling
  generalize x (.start i h) = r, y (.start i h) = r' at hrun ⊢
  cases hrun with
  | @ok v s t hst =>
    show EndsAlike _ _ (.ok (v, s.heap) s.input) (.ok (v, t.heap) t.input)
    rw [hst.heap, hst.input]
    exact .ok _ ⟨rfl, hst.ready⟩
  | error he => exact .error he
  | early he => exact he.elim

/-- A stream is read as by roll. -/
theorem readStream_by_roll (e : Engine) (hxy : AlwaysByRoll x y) (h : Heap) (bs : Bytes) :
    resultOf (e.readStream h x) ((Input.ofBytes bs).withLayout e.config.native) =
        e.rollStream h y bs ∧
      ∀ id, e.rollStream h y bs ≠ .error (.refUnfinished id) := by
  have hrun : InStep .rolling SameInput (e.readStream h x)
      (do if ← e.readHeader then return (none, h) else rolling h y) := by
    refine (sameInput_readHeader e).bind fun null => ?_
    cases null with
    | true => exact .pure _
    | false => exact sameInput_reading hxy h
  have hready : ((Input.ofBytes bs).withLayout e.config.native).Ready :=
    ⟨Nat.le_of_eq (Nat.zero_add _), by rintro _ ⟨⟩⟩
  have hends := hrun _ _ ⟨rfl, hready⟩
  unfold rollStream resultOf
  generalize e.readStream h x _ = r, (do if ← e.readHeader then return (none, h) else rolling h y :
    Scan (Value × Heap)) _ = r' at hends ⊢
  cases hends with
  | ok a _ => exact ⟨rfl, by simp⟩
  | error he =>
    obtain ⟨rfl, hne⟩ := he
    exact ⟨rfl, by simpa using hne⟩
  | early he => exact he.elim

/-- What a reading has bound in the end is the roll. -/
theorem bindings_of_byRoll (hxy : AlwaysByRoll x y) {i : Input} (hi : i.Ready) {h : Heap}
    {v : Value} {s : ReadState} (hs : x (.start i h) = .ok v s) :
    ∃ t, y (.start i h) = .ok v t ∧ s.bindings.Follows none [] t.roll ∧
      (t.roll.length ≤ 2 ^ 32 → s.bindings = ⟨(t.roll.map some).toArray, []⟩) := by
  have hrun := hxy [] _ _ (alongside_start hi h)
  rw [hs] at hrun
  generalize y (.start i h) = r at hrun ⊢
  cases hrun with
  | @ok _ _ t hst => exact ⟨t, rfl, hst.bindings, hst.bindings.eq_of_few⟩
  | early he => exact he.elim

/-- **Numbers stand for the objects on the roll.**  Whatever the bytes are, and whether
    the value is declared or not, an engine reads what it would read by roll, or fails
    as it would by roll: the number `i` leads to the object that was created for the
    `i`-th marker of a new object, be it finished or not, and is out of range if there
    were not so many.  No object is found unfinished; and in the end nothing waits, and
    each number is bound to what stands at its place on the roll.  Only after more than
    `2 ^ 32` such markers numbers are given anew, and lead to the last that got them
    (`holder_eq_getElem?`). -/
theorem deserialize_by_roll {e : Engine} (he : e.Assembled) (h : Heap) (bs : Bytes) :
    (e.deserialize h bs = e.rollStream h (Rolling.any e) bs ∧
      ∀ ty, e.deserializeField h ty bs = e.rollStream h (Rolling.declared e ty) bs) ∧
    (∀ id, e.deserialize h bs ≠ .error (.refUnfinished id) ∧
      ∀ ty, e.deserializeField h ty bs ≠ .error (.refUnfinished id)) ∧
    ∀ i : Input, i.Ready → ∀ v s,
      (Reading.any e (.start i h) = .ok v s → ∃ t, Rolling.any e (.start i h) = .ok v t ∧
        s.bindings.Follows none [] t.roll ∧
        (t.roll.length ≤ 2 ^ 32 → s.bindings = ⟨(t.roll.map some).toArray, []⟩)) ∧
      ∀ ty, Reading.declared e ty (.start i h) = .ok v s →
        ∃ t, Rolling.declared e ty (.start i h) = .ok v t ∧
          s.bindings.Follows none [] t.roll ∧
          (t.roll.length ≤ 2 ^ 32 → s.bindings = ⟨(t.roll.map some).toArray, []⟩) := by
  have hany := e.readStream_by_roll (byRoll_any he.sound) h bs
  have hdeclared := fun ty => e.readStream_by_roll (byRoll_declared he.sound ty) h bs
  rw [← deserialize_eq_readStream] at hany
  refine ⟨⟨hany.1, fun ty => (hdeclared ty).1⟩, fun id => ⟨?_, fun ty => ?_⟩, fun i hi v s => ?_⟩
  · exact hany.1 ▸ hany.2 id
  · show resultOf _ _ ≠ _
    exact (hdeclared ty).1 ▸ (hdeclared ty).2 id
  · exact ⟨bindings_of_byRoll (byRoll_any he.sound) hi,
      fun ty => bindings_of_byRoll (byRoll_declared he.sound ty) hi⟩

/-- The container that holds itself, and one with the number of an object to come. -/
theorem deserialize_by_roll_loop :
    ({ config := { trackRef := true } } : Engine).deserialize .empty
        [10, 11, 0, 1, 5, 14, 11, 254, 0] = .ok (some 0, loop) ∧
      ({ config := { trackRef := true } } : Engine).deserialize .empty
        [10, 11, 0, 1, 5, 14, 11, 254, 1] = .error (.refOutOfRange 1 1) := by
  let e : Engine := { config := { trackRef := true } }
  have hloop : e.rollStream .empty (Rolling.any e) [10, 11, 0, 1, 5, 14, 11, 254, 0] =
      .ok (some 0, loop) := by decide +kernel
  have hrange : e.rollStream .empty (Rolling.any e) [10, 11, 0, 1, 5, 14, 11, 254, 1] =
      .error (.refOutOfRange 1 1) := by decide +kernel
  exact ⟨(deserialize_by_roll (.start _) .empty _).1.1.trans hloop,
    (deserialize_by_roll (.start _) .empty _).1.1.trans hrange⟩

end Engine

end GraphWire

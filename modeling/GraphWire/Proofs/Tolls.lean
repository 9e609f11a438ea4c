/-
  What an entry costs.

  How many entries a container has is a number in the stream that is checked against nothing.
  But whatever stands on a side of an entry takes a byte, null and an object met earlier
  included, and no byte is taken twice.  So two bytes are paid for every entry that is put
  into a container, however the containers nest and however the reading ends.

  * `Scan.Charges` says that a reading of items takes so many bytes unless it fails, and
    `Reading.Costs` that a reading does so on top of what it pays for entries, with a rule for
    each way to compose them;
  * `CostsNested.any` and the like: one step for each way of reading;
  * `costsNested_data`: all levels, by induction;
  * `Engine.twice_inserted_le_total`: entries are paid for, whatever the bytes are, and a loop
    over more entries than can be paid for fails.
-/
import GraphWire.Proofs.Beside
import GraphWire.Proofs.Cursors
import GraphWire.Proofs.RoundTrip

namespace GraphWire

variable {α β : Type}

/-! ## Items -/

namespace Scan

variable {j k : Nat} {x : Scan α}

/-- Whether a reading takes at least so many bytes, or fails somewhere further on. -/
def Charges (k : Nat) (x : Scan α) : Prop :=
  ∀ i : Input, i.limit ≤ i.capacity →
    Leads (fun _ i' => ∃ n, k ≤ n ∧ Input.Moves n i i') (Input.Proceeds i) (x i)

theorem Charges.le (hx : Charges j x) (h : k ≤ j) : Charges k x := fun i hi =>
  (hx i hi).mono (fun _ _ ⟨n, hn, hmoves⟩ => ⟨n, h.trans hn, hmoves⟩) fun _ => id

/-- What comes after takes nothing back. -/
theorem Charges.bind {f : α → Scan β} (hx : Charges k x) (hf : ∀ a, (f a).Composed) :
    Charges k (x >>= f) := by
  refine fun i hi => (hx i hi).bind ?_
  rintro a i₁ ⟨m, hm, h₁⟩
  refine (Input.advancing_of_composed (hf a) i₁ h₁.fits).mono ?_ fun _ => h₁.proceeds.trans
  rintro b i' ⟨n, h⟩
  exact ⟨m + n, hm.trans (Nat.le_add_right m n), h₁.trans h⟩

theorem Charges.map (hx : Charges k x) (f : α → β) : Charges k (f <$> x) := by
  rw [map_eq_pure_bind]
  exact hx.bind fun _ => .pure _

end Scan

namespace Input

open Scan

theorem charges_take (n : Nat) : Charges n (take n) := fun _ hi =>
  (moves_take hi).mono (fun _ _ h => ⟨n, le_rfl, h.1⟩) fun _ => Moves.proceeds

theorem charges_byte : Charges 1 byte := (charges_take 1).bind fun _ => .pure _

theorem charges_scalar (s : Scalar) : Charges 1 (scalar s) := by
  have hwidth : 1 ≤ s.width := by cases s <;> decide
  exact ((charges_take s.width).le hwidth).bind fun _ => .pure _

theorem charges_varGroups (bits n : Nat) : Charges 1 (varGroups bits (n + 1)) := by
  unfold varGroups
  refine charges_byte.bind fun b => ?_
  split
  · exact .throw (.varintOverflow _)
  split
  · exact .pure _
  · exact (composed_varGroups bits n).bind fun _ => .pure _

/-- **A number takes a byte**, however small it is. -/
theorem charges_var (t : VarNumber) : Charges 1 (var t) := by
  intro i hi
  unfold var
  rw [get_bind]
  split
  · exact charges_scalar _ i hi
  · rw [← Nat.sub_add_cancel t.maxBytes_pos]
    exact (charges_varGroups _ _).bind (fun _ => .pure _) i hi

theorem charges_string : Charges 1 string := by
  refine (charges_var .u32).bind fun n => (Composed.bytes _).bind fun bs => ?_
  split
  · exact .pure _
  · exact .throw (.notText _)

end Input

/-- **A leaf takes a byte**, the empty text included. -/
theorem Reading.charges_leaf (type : LeafType) : Scan.Charges 1 (leaf type) := by
  cases type with
  | bool => exact (Input.charges_byte.bind fun _ => .pure _).map _
  | i8 => exact (Input.charges_byte.bind fun _ => .pure _).map _
  | i16 => exact (Input.charges_scalar .i16).map _
  | i32 => exact (Input.charges_var .i32).map _
  | i64 => exact (Input.charges_var .i64).map _
  | f32 => exact (Input.charges_scalar .f32).map _
  | f64 => exact (Input.charges_scalar .f64).map _
  | string => exact Input.charges_string.map _

/-! ## Paying for entries -/

/-- Whether a reading came from a state to another by taking two bytes for each entry that it
    put into a container, and so many bytes besides. -/
structure ReadState.Paid (k : Nat) (s s' : ReadState) : Prop where
  inserted_le : s.inserted ≤ s'.inserted
  bytes : ∃ n, Input.Moves n s.input s'.input ∧ 2 * s'.inserted + k ≤ 2 * s.inserted + n

namespace ReadState

variable {j k : Nat} {s s₁ s' : ReadState}

theorem Paid.refl (hs : s.input.limit ≤ s.input.capacity) : Paid 0 s s :=
  ⟨le_rfl, 0, Input.Stays.refl hs, le_rfl⟩

theorem Paid.fits (h : Paid k s s') : s'.input.limit ≤ s'.input.capacity := by
  obtain ⟨-, n, hmoves, -⟩ := h
  exact hmoves.fits

theorem Paid.le (h : Paid j s s') (hkj : k ≤ j) : Paid k s s' := by
  obtain ⟨hle, n, hmoves, hn⟩ := h
  exact ⟨hle, n, hmoves, by omega⟩

theorem Paid.trans (h : Paid j s s₁) (h' : Paid k s₁ s') : Paid (j + k) s s' := by
  obtain ⟨hle, m, hm, hj⟩ := h
  obtain ⟨hle', n, hn, hk⟩ := h'
  exact ⟨hle.trans hle', m + n, hm.trans hn, by omega⟩

/-- Only the input and the count of entries matter. -/
theorem Paid.congr {t t' : ReadState} (h : Paid k s s') (hi : t.input = s.input)
    (hn : t.inserted = s.inserted) (hi' : t'.input = s'.input) (hn' : t'.inserted = s'.inserted) :
    Paid k t t' := by
  obtain ⟨hle, n, hmoves, hk⟩ := h
  exact ⟨hn ▸ hn' ▸ hle, n, hi ▸ hi' ▸ hmoves, hn ▸ hn' ▸ hk⟩

/-- Two bytes more were taken than for the entries put in so far: one more can be put in. -/
theorem Paid.put (h : Paid 2 s s') (heap : Heap) :
    Paid 0 s { s' with heap, inserted := s'.inserted + 1 } := by
  obtain ⟨hle, n, hmoves, hn⟩ := h
  exact ⟨Nat.le_succ_of_le hle, n, hmoves, show 2 * (s'.inserted + 1) + 0 ≤ _ by omega⟩

/-- Twice as many bytes are taken as entries are put in. -/
theorem Paid.bounds (h : Paid k s s') :
    2 * (s'.inserted - s.inserted) + k ≤ s'.input.total - s.input.total ∧
      s'.input.total - s.input.total ≤ s.input.ahead.length := by
  obtain ⟨hle, n, hmoves, hn⟩ := h
  have htotal := hmoves.total
  exact ⟨by omega, by have := hmoves.le; omega⟩

end ReadState

namespace Reading

/-- Whether a reading takes so many bytes on top of what it pays for entries, or fails after
    paying for the entries so far. -/
def Costs (k : Nat) (x : Reading α) : Prop :=
  ∀ s : ReadState, s.input.limit ≤ s.input.capacity →
    Leads (fun _ => ReadState.Paid k s) (ReadState.Paid 0 s) (x s)

variable {j k : Nat} {x : Reading α}

namespace Costs

protected theorem pure (a : α) : Costs 0 (pure a) := fun _ hs => ReadState.Paid.refl hs

/-- What fails may cost anything. -/
protected theorem throw (e : Error) : Costs k (throw e : Reading α) :=
  fun _ hs => ReadState.Paid.refl hs

theorem le (hx : Costs j x) (h : k ≤ j) : Costs k x := fun s hs =>
  (hx s hs).mono (fun _ _ hp => hp.le h) fun _ => id

/-- Costs add up. -/
protected theorem bind {f : α → Reading β} (hx : Costs j x) (hf : ∀ a, Costs k (f a)) :
    Costs (j + k) (x >>= f) := fun s hs =>
  Leads.bind (hx s hs) fun a s₁ h₁ =>
    (hf a s₁ h₁.fits).mono (fun _ _ h => h₁.trans h) fun _ h => (h₁.le (Nat.zero_le j)).trans h

/-- The first of two parts pays. -/
theorem first {f : α → Reading β} (hx : Costs k x) (hf : ∀ a, Costs 0 (f a)) :
    Costs k (x >>= f) := hx.bind hf

/-- The second of two parts pays. -/
theorem second {f : α → Reading β} (hx : Costs 0 x) (hf : ∀ a, Costs k (f a)) :
    Costs k (x >>= f) := Nat.zero_add k ▸ hx.bind hf

protected theorem map (hx : Costs k x) (f : α → β) : Costs k (f <$> x) := by
  rw [map_eq_pure_bind]
  exact hx.first fun _ => .pure _

protected theorem get_bind {f : ReadState → Reading α} (hf : ∀ s, Costs k (f s)) :
    Costs k (get >>= f) := fun s hs => hf s s hs

protected theorem attempt_bind {y : Except Error β} {f : β → Reading α}
    (hf : ∀ b, y = .ok b → Costs k (f b)) : Costs k (attempt y >>= f) := by
  cases y with
  | ok b => exact hf b rfl
  | error e => exact .throw e

/-- What changes neither the input nor the count of entries costs nothing. -/
protected theorem modify {f : ReadState → ReadState} (hinput : ∀ s, (f s).input = s.input)
    (hinserted : ∀ s, (f s).inserted = s.inserted) : Costs 0 (modify f) := fun s hs =>
  (ReadState.Paid.refl hs).congr rfl rfl (hinput s) (hinserted s)

protected theorem scan {y : Scan α} (hy : y.Charges k) : Costs k (scan y) := by
  intro s hs
  have hrun := hy s.input hs
  unfold scan
  cases hr : y s.input with
  | ok a i =>
    rw [hr] at hrun
    obtain ⟨n, hn, hmoves⟩ := hrun
    exact ⟨le_rfl, n, hmoves, Nat.add_le_add_left hn _⟩
  | error e i =>
    rw [hr] at hrun
    obtain ⟨n, hmoves⟩ := hrun
    exact ⟨le_rfl, n, hmoves, Nat.le_add_right _ _⟩

/-- What changes only the scope before and after costs what is in between. -/
theorem within (hx : Costs k x) (f g : Scope → Scope) (s : ReadState)
    (hs : s.input.limit ≤ s.input.capacity) :
    Leads (fun _ => ReadState.Paid k s) (ReadState.Paid 0 s)
      (leaving (inScope g) x (inScope f s)) := by
  have hrun := hx (inScope f s) hs
  unfold leaving
  cases hr : x (inScope f s) with
  | ok a s₁ =>
    rw [hr] at hrun
    exact ReadState.Paid.congr hrun rfl rfl rfl rfl
  | error e s₁ =>
    rw [hr] at hrun
    exact ReadState.Paid.congr hrun rfl rfl rfl rfl

protected theorem declaring (hx : Costs k x) (ty : Declared) : Costs k (declaring ty x) := by
  intro s hs
  rw [declaring_apply]
  exact hx.within _ _ s hs

protected theorem descend (hx : Costs k x) (limit : Nat) : Costs k (descend limit x) := by
  intro s hs
  rw [descend_apply]
  split
  · exact ReadState.Paid.refl hs
  · exact hx.within _ _ s hs

protected theorem completing {x : Reading ObjId} (hx : Costs k x) : Costs k (completing x) := by
  intro s hs
  have hrun := hx s hs
  rw [completing_apply]
  cases hr : x s with
  | ok o s₁ =>
    rw [hr] at hrun
    dsimp only
    split
    · exact ReadState.Paid.congr hrun rfl rfl rfl rfl
    · exact hrun
  | error e s₁ =>
    rw [hr] at hrun
    exact hrun

end Costs

theorem costs_count : Costs 1 count := (Costs.scan (Input.charges_var .u32)).first fun _ => .pure _

theorem costs_marker : Costs 1 marker := by
  refine (Costs.scan (Input.charges_byte.bind fun _ => .pure _)).first fun code => ?_
  cases Marker.ofCode? code with
  | some m => exact .pure m
  | none => exact .throw _

theorem costs_earlier : Costs 1 earlier := by
  refine costs_count.first fun id => .get_bind fun s => ?_
  cases s.bindings.get id with
  | ok o => exact .pure o
  | error e => exact .throw e

theorem costs_newObject (n : Node) : Costs 0 (newObject n : Reading ObjId) := fun _ hs =>
  (ReadState.Paid.refl hs).congr rfl rfl rfl rfl

end Reading

/-! ## One level -/

open Reading (Costs)

/-- Whether every reading of a nested object takes a byte on top of what it pays for entries. -/
def CostsNested (e : Engine) (rn : ClassInfo → Serializer → Option Nat → Reading ObjId) : Prop :=
  ∀ c ser id, e.registry.Gives c ser → Costs 1 (rn c ser id)

section
variable {e : Engine} {rn : ClassInfo → Serializer → Option Nat → Reading ObjId} {c : ClassInfo}
  {ser : Serializer}

namespace CostsNested

theorem fresh (hn : CostsNested e rn) (hg : e.registry.Gives c ser) :
    Costs 1 (Reading.freshVia rn c ser) := by
  have hreserve : Costs 0 Reading.reserve := fun _ hs =>
    (ReadState.Paid.refl hs).congr rfl rfl rfl rfl
  exact hreserve.second fun id => hn c ser (some id) hg

theorem nullable (hn : CostsNested e rn) (hg : e.registry.Gives c ser) :
    Costs 1 (Reading.nullableVia rn c ser) := by
  refine Reading.costs_marker.first fun m => ?_
  cases m with
  | null => exact .pure _
  | back => exact (Reading.costs_earlier.le (Nat.zero_le 1)).first fun _ => .pure _
  | plain => exact ((hn c ser none hg).le (Nat.zero_le 1)).first fun _ => .pure _
  | fresh => exact ((hn.fresh hg).le (Nat.zero_le 1)).first fun _ => .pure _

theorem object (hn : CostsNested e rn) (hg : e.registry.Gives c ser) :
    Costs 1 (Reading.objectVia e rn c ser) := by
  unfold Reading.objectVia
  split
  · refine Reading.costs_marker.first fun m => ?_
    cases m with
    | back => exact Reading.costs_earlier.le (Nat.zero_le 1)
    | fresh => exact (hn.fresh hg).le (Nat.zero_le 1)
    | null | plain => exact .throw _
  · exact hn c ser none hg

variable (he : e.registry.Sound)
include he

theorem any (hn : CostsNested e rn) : Costs 1 (Reading.anyVia e rn) := by
  refine Reading.costs_count.first fun id => ?_
  split
  · exact .pure _
  · refine .attempt_bind fun c hc => .attempt_bind fun ser hser => ?_
    exact ((hn.object (he.gives_of_id hc hser)).le (Nat.zero_le 1)).first fun _ => .pure _

theorem declared (hn : CostsNested e rn) (ty : Declared) :
    Costs 1 (Reading.declaredVia e rn ty) := by
  refine Costs.declaring ?_ ty
  cases ty.type?.filter e.registry.isFinal with
  | none => exact hn.any he
  | some type =>
    exact .attempt_bind fun c hc => .attempt_bind fun ser hser => hn.nullable (he.gives hc hser)

/-- **Whatever stands on a side of an entry takes a byte.** -/
theorem side (hn : CostsNested e rn) {slot : Slot}
    (hg : ∀ c ser, slot.target = some (c, ser) → e.registry.Gives c ser) :
    Costs 1 (Reading.sideVia e rn slot) := by
  unfold Reading.sideVia
  cases ht : slot.target with
  | none => exact hn.any he
  | some target =>
    obtain ⟨c, ser⟩ := target
    dsimp only
    split
    · exact hn.nullable (hg c ser ht)
    · exact (hn.object (hg c ser ht)).map _

/-- **The two sides of an entry pay for it.**  A loop over so many entries puts as many in,
    unless it fails. -/
theorem entries (hn : CostsNested e rn) {keySlot valueSlot : Slot}
    (hk : ∀ c ser, keySlot.target = some (c, ser) → e.registry.Gives c ser)
    (hv : ∀ c ser, valueSlot.target = some (c, ser) → e.registry.Gives c ser)
    (keyType : Declared) (o : ObjId) (n : Nat) (s : ReadState)
    (hs : s.input.limit ≤ s.input.capacity) :
    Leads (fun _ s' => s.Paid 0 s' ∧ s.inserted + n ≤ s'.inserted) (s.Paid 0)
      (Reading.entriesVia e rn keySlot valueSlot keyType o n s) := by
  induction n generalizing s with
  | zero => exact ⟨.refl hs, le_rfl⟩
  | succ n ih =>
    have hsides : Costs 2 (do
        let k ← declaring keyType (Reading.sideVia e rn keySlot)
        let v ← Reading.sideVia e rn valueSlot
        return (k, v)) :=
      ((hn.side he hk).declaring keyType).bind fun k => (hn.side he hv).first fun v => .pure (k, v)
    have hstep : Reading.entriesVia e rn keySlot valueSlot keyType o (n + 1) = (do
        let x ← (do
          let k ← declaring keyType (Reading.sideVia e rn keySlot)
          let v ← Reading.sideVia e rn valueSlot
          return (k, v))
        Reading.putEntry o x.1 x.2
        Reading.entriesVia e rn keySlot valueSlot keyType o n) := by
      simp [Reading.entriesVia]
    rw [hstep]
    refine (hsides s hs).bind ?_
    rintro ⟨k, v⟩ s₁ h₁
    have hput := h₁.put (s₁.heap.insert o k v).2
    refine (ih _ hput.fits).mono ?_ fun _ => hput.trans
    rintro _ s' ⟨hpaid, hcount⟩
    refine ⟨hput.trans hpaid, le_trans ?_ hcount⟩
    show s.inserted + (n + 1) ≤ s₁.inserted + 1 + n
    have := h₁.inserted_le
    omega

/-- A loop puts in half as many entries as there are bytes ahead at most, and fails if it is
    to read more. -/
theorem bounded (hn : CostsNested e rn) {keySlot valueSlot : Slot}
    (hk : ∀ c ser, keySlot.target = some (c, ser) → e.registry.Gives c ser)
    (hv : ∀ c ser, valueSlot.target = some (c, ser) → e.registry.Gives c ser)
    (keyType : Declared) (o : ObjId) (n : Nat) (s : ReadState)
    (hs : s.input.limit ≤ s.input.capacity) :
    let loop := Reading.entriesVia e rn keySlot valueSlot keyType o n
    2 * ((stateAfter loop s).inserted - s.inserted) ≤ s.input.ahead.length ∧
      (s.input.ahead.length < 2 * n → ∃ err s', loop s = .error err s') := by
  intro loop
  have hrun := hn.entries he hk hv keyType o n s hs
  change Leads _ _ (loop s) at hrun
  have hpaid : s.Paid 0 (stateAfter loop s) := (hrun.mono (fun _ _ h => h.1) fun _ => id).stateAfter
  refine ⟨hpaid.bounds.1.trans hpaid.bounds.2, fun hshort => ?_⟩
  cases hr : loop s with
  | error err s' => exact ⟨err, s', rfl⟩
  | ok u s' =>
    rw [hr] at hrun
    obtain ⟨hpaid, hcount⟩ := hrun
    have := hpaid.bounds
    omega

theorem map (hn : CostsNested e rn) {key value : SideSetup Serializer}
    (hk : e.registry.SideGives key) (hv : e.registry.SideGives value)
    (factory : Option ContainerType) : Costs 1 (Reading.mapVia e rn c key value factory) := by
  have hcreate : Costs 0 (newContainer c factory : Reading ObjId) :=
    .attempt_bind fun type _ => Reading.costs_newObject _
  refine hcreate.second fun o => Reading.costs_count.first fun n => .get_bind fun s =>
    .get_bind fun s' => .attempt_bind ?_
  rintro ⟨keySlot, valueSlot, keyType⟩ hslots
  obtain ⟨hgk, hgv⟩ := gives_of_resolveSlots he hk hv hslots
  have hentries : Costs 0 (Reading.entriesVia e rn keySlot valueSlot keyType o n) := fun s hs =>
    (hn.entries he hgk hgv keyType o n s hs).mono (fun _ _ h => h.1) fun _ => id
  have hbind : Costs 0 (bindObject o : Reading Unit) := .modify (fun _ => rfl) fun _ => rfl
  have hpop : Costs 0 (modify popFrame : Reading Unit) := .modify (fun _ => rfl) fun _ => rfl
  exact hbind.first fun _ => hentries.first fun _ => hpop.first fun _ => .pure o

theorem body (hn : CostsNested e rn) (hg : e.registry.Gives c ser) :
    Costs 1 (Reading.bodyVia e rn c ser) := by
  cases he.shape hg with
  | leaf _ hser =>
    subst hser
    exact (Costs.scan (Reading.charges_leaf _)).first fun _ => Reading.costs_newObject _
  | map _ hser _ _ hk hv =>
    subst hser
    exact hn.map he hk hv none

end CostsNested

end

/-! ## All levels -/

section
variable {e : Engine} (he : e.registry.Sound)
include he

/-- **Every object takes a byte on top of what is paid for entries**, however deep it is. -/
theorem costsNested_data (levels : Nat) : CostsNested e (Reading.data e levels) := by
  induction levels with
  | zero => exact fun _ _ _ _ _ hs => ReadState.Paid.refl hs
  | succ levels ih =>
    intro c ser id hg
    have hexpect : Costs 0 (Reading.expect id) := .modify (fun _ => rfl) fun _ => rfl
    exact (hexpect.second fun _ => (ih.body he hg).completing).descend _

theorem costs_any : Costs 1 (Reading.any e) := fun s hs => (costsNested_data he _).any he s hs

theorem costs_declared (ty : Declared) : Costs 1 (Reading.declared e ty) :=
  fun s hs => (costsNested_data he _).declared he ty s hs

end

/-! ## Streams -/

namespace Engine

/-- How many entries are put into containers when a stream is read whose value is read so,
    whether it is accepted or not. -/
def insertedFrom (e : Engine) (h : Heap) (x : Reading Value) (i : Input) : Nat :=
  match e.readHeader i with
  | .ok false i => (stateAfter x (.start i h)).inserted
  | _ => 0

variable {e : Engine} {x : Reading Value} {i : Input}

theorem stateAfter_reading (h : Heap) (x : Reading Value) (i : Input) :
    stateAfter (reading h x) i = (stateAfter x (.start i h)).input := by
  unfold stateAfter reading
  cases x (.start i h) <;> rfl

/-- Where the reading of a stream stops. -/
theorem stateAfter_readStream (e : Engine) (h : Heap) (x : Reading Value) (i : Input) :
    stateAfter (e.readStream h x) i =
      match e.readHeader i with
      | .ok true i₁ | .error _ i₁ => i₁
      | .ok false i₁ => (stateAfter x (.start i₁ h)).input := by
  cases hr : e.readHeader i with
  | error err i₁ =>
    have hstream : e.readStream h x i = .error err i₁ := bind_eq_error.2 (Or.inl hr)
    simp [stateAfter, hstream]
  | ok null i₁ =>
    have hstream := bind_of_ok (f := fun null => if null then pure (none, h) else reading h x) hr
    change e.readStream h x i = _ at hstream
    cases null with
    | true => simp [stateAfter, hstream]
    | false =>
      show _ = (stateAfter x (.start i₁ h)).input
      rw [← stateAfter_reading]
      simp [stateAfter, hstream]

theorem advancing_readHeader (e : Engine) : Input.Advancing e.readHeader := by
  refine (Input.advancing_of_composed Input.composed_octet).bind fun b =>
    Input.Advancing.bind ?_ fun _ i hi => (Input.Stays.refl hi).proceeds
  intro i hi
  cases e.check (Header.ofByte b) <;> exact (Input.Stays.refl hi).proceeds

/-- Entries are paid for by the bytes behind the header. -/
theorem moves_readStream (hx : Costs 0 x) (h : Heap) (hi : i.limit ≤ i.capacity) :
    ∃ n, Input.Moves n i (stateAfter (e.readStream h x) i) ∧ 2 * e.insertedFrom h x i ≤ n := by
  have hheader := e.advancing_readHeader i hi
  rw [stateAfter_readStream]
  unfold insertedFrom
  cases hr : e.readHeader i with
  | error err i₁ =>
    rw [hr] at hheader
    obtain ⟨m, hm⟩ := hheader
    exact ⟨m, hm, Nat.zero_le m⟩
  | ok null i₁ =>
    rw [hr] at hheader
    obtain ⟨m, hm⟩ := hheader
    cases null with
    | true => exact ⟨m, hm, Nat.zero_le m⟩
    | false =>
      obtain ⟨-, n, hn, hpaid⟩ : ReadState.Paid 0 (.start i₁ h) (stateAfter x (.start i₁ h)) :=
        Leads.stateAfter (hx _ hm.fits)
      have hpaid : 2 * (stateAfter x (.start i₁ h)).inserted ≤ 0 + n := hpaid
      exact ⟨m + n, hm.trans hn, by dsimp only; omega⟩

/-- In memory, what is consumed in all is no more than the bytes that there are. -/
theorem twice_insertedFrom_le (hx : Costs 0 x) (h : Heap) (bs : Bytes) (native : Bool) :
    let i := (Input.ofBytes bs).withLayout native
    2 * e.insertedFrom h x i ≤ (stateAfter (e.readStream h x) i).total ∧
      (stateAfter (e.readStream h x) i).total ≤ bs.length := by
  intro i
  have hi : i.limit ≤ i.capacity := Nat.le_of_eq (Nat.zero_add _)
  obtain ⟨n, hmoves, hn⟩ := moves_readStream (e := e) hx h hi
  have htotal : (stateAfter (e.readStream h x) i).total = 0 + n := hmoves.total
  have hle := hmoves.le
  have hahead : i.ahead = bs := List.append_nil bs
  rw [hahead] at hle
  exact ⟨by omega, by omega⟩

/-- **A forged count cannot outrun the input.**  Whatever the bytes are, and whether they are
    accepted or not: reading a value, declared or not, puts at most half as many entries into
    containers as it consumes bytes.  So however many entries a loop is told to read, it puts
    in at most half as many as there are bytes ahead, and fails if that is not enough. -/
theorem twice_inserted_le_total (he : e.Assembled) (h : Heap) (bs : Bytes) :
    let i := (Input.ofBytes bs).withLayout e.config.native
    (2 * e.insertedFrom h (Reading.any e) i ≤ (stateAfter (e.deserializeWith h) i).total ∧
      (stateAfter (e.deserializeWith h) i).total ≤ bs.length) ∧
    (∀ ty, 2 * e.insertedFrom h (Reading.declared e ty) i ≤
        (stateAfter (e.readStream h (Reading.declared e ty)) i).total ∧
      (stateAfter (e.readStream h (Reading.declared e ty)) i).total ≤ bs.length) ∧
    ∀ (c : ClassInfo) (key value : SideSetup Serializer) (factory : Option ContainerType),
      e.registry.Gives c (.map key value factory) → ∀ frames args keySlot valueSlot keyType,
      resolveSlots e.registry frames args key value = .ok (keySlot, valueSlot, keyType) →
      ∀ levels o n (s : ReadState), s.input.limit ≤ s.input.capacity →
        let loop := Reading.entriesVia e (Reading.data e levels) keySlot valueSlot keyType o n
        2 * ((stateAfter loop s).inserted - s.inserted) ≤ s.input.ahead.length ∧
          (s.input.ahead.length < 2 * n → ∃ err s', loop s = .error err s') := by
  refine ⟨?_, fun ty => ?_, ?_⟩
  · have hpaid := twice_insertedFrom_le (e := e) ((costs_any he.sound).le (Nat.zero_le 1)) h bs
      e.config.native
    unfold stateAfter at hpaid ⊢
    rwa [deserializeWith_ofBytes]
  · exact twice_insertedFrom_le ((costs_declared he.sound ty).le (Nat.zero_le 1)) h bs _
  · intro c key value factory hg frames args keySlot valueSlot keyType hslots levels o n s hs loop
    obtain ⟨hk, hv⟩ : e.registry.SideGives key ∧ e.registry.SideGives value := by
      cases he.sound.shape hg with
      | leaf _ hser => cases hser
      | map _ hser _ _ hk hv =>
        cases hser
        exact ⟨hk, hv⟩
    obtain ⟨hgk, hgv⟩ := gives_of_resolveSlots he.sound hk hv hslots
    exact (costsNested_data he.sound levels).bounded he.sound hgk hgv keyType o n s hs

/-- A container of which it is said that it has as many entries as a count can say, though
    there are three: they are read, and then no more can be. -/
theorem twice_inserted_le_total_forged :
    let forged : Bytes := [2, 10, 0xff, 0xff, 0xff, 0xff, 0x0f, 0, 0, 0, 0, 0, 0]
    let i := Input.ofBytes forged
    ({} : Engine).deserialize .empty forged = .error (.underflow 1 0) ∧
      ({} : Engine).insertedFrom .empty (Reading.any {}) i = 3 ∧
      2 * 3 ≤ (stateAfter (({} : Engine).deserializeWith .empty) i).total ∧
      ∃ err s', Reading.entriesVia {} (Reading.data {} 127) ⟨none, true, .key⟩
        ⟨none, true, .value⟩ .unknown 0 0xffffffff (.start (.ofBytes (forged.drop 7)) .empty) =
          .error err s' := by
  intro forged i
  obtain ⟨hany, -, hloop⟩ := twice_inserted_le_total (.start {}) .empty forged
  have hinserted : ({} : Engine).insertedFrom .empty (Reading.any {}) i = 3 := by decide +kernel
  have hclass : Registry.builtins.classOf (.container .hash) =
      .ok (Registration.ofContainer .hash 9).toClassInfo := rfl
  have hgives : Registry.builtins.Gives (Registration.ofContainer .hash 9).toClassInfo
      (.map {} {} none) :=
    Registry.sound_builtins.gives hclass rfl
  have hlong := (hloop _ _ _ _ hgives .empty [] _ _ _ rfl 127 0 0xffffffff
    (.start (.ofBytes (forged.drop 7)) .empty) (by decide)).2 (by decide)
  exact ⟨by decide +kernel, hinserted, hinserted ▸ hany.1, hlong⟩

end Engine

end GraphWire

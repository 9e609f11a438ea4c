/-
  The two tables of a registry.

  What an application adds is entered into the table by type and into the table by id, one
  after the other, or is refused.  Writers look types up in the one, readers their ids in the
  other.

  * `Registry.OneToOne` says that both tables hold the same, each type and each id once, and
    `Registry.OneToOne.find?_iff` that it is found alike in both;
  * `Engine.enrolment_cases`: every call of an application is refused and changes nothing, or
    keeps a registry in order, with the built-in types and the ids that are kept for them;
  * `Engine.registry_one_to_one`: so the number that is written for a type is never that of
    null, and a reader finds by it what the writer found by the type.
-/
import GraphWire.Engine.Operations
import GraphWire.Proofs.Registries
import GraphWire.Proofs.Scans

namespace GraphWire

/-! ## Registries in order -/

namespace Registry

variable {r : Registry} {reg : Registration}

/-- Whether both tables of a registry hold the same, each type and each id once. -/
structure OneToOne (r : Registry) : Prop where
  tables : r.byId.Perm r.registrations
  types : (r.registrations.map (·.type)).Nodup
  ids : (r.byId.map (·.id)).Nodup

namespace OneToOne

theorem find?_iff_mem (h : r.OneToOne) : r.find? reg.type = some reg ↔ reg ∈ r.registrations :=
  ⟨mem_of_find?, fun hm => find?_of_nodup h.types hm⟩

theorem findId?_iff_mem (h : r.OneToOne) : r.findId? reg.id = some reg ↔ reg ∈ r.byId :=
  ⟨List.mem_of_find?_eq_some, fun hm => find?_of_nodup h.ids hm⟩

/-- **What is found by its type is found by its id**, and the other way round. -/
theorem find?_iff (h : r.OneToOne) :
    r.find? reg.type = some reg ↔ r.findId? reg.id = some reg := by
  rw [h.find?_iff_mem, h.findId?_iff_mem, h.tables.mem_iff]

/-- What is admitted is entered last in both tables. -/
theorem concat (h : r.OneToOne) (hreg : r.Admits reg) :
    OneToOne ⟨r.registrations ++ [reg], r.byId ++ [reg]⟩ where
  tables := h.tables.append_right [reg]
  types := nodup_concat h.types (find?_eq_none_iff.1 hreg.type)
  ids := nodup_concat h.ids (findId?_eq_none_iff.1 hreg.id)

end OneToOne

/-- Whether a registry is as applications leave it: both tables hold the same, beginning with
    the built-in types, and what else there is has an id that is not kept for those. -/
structure InOrder (r : Registry) : Prop extends r.OneToOne where
  own : ∃ own, r.registrations = builtins.registrations ++ own ∧
    ∀ reg ∈ own, firstFreeId ≤ reg.id

theorem inOrder_builtins : builtins.InOrder where
  tables := by rw [sound_builtins.tables]
  types := sound_builtins.types
  ids := sound_builtins.ids
  own := ⟨[], (List.append_nil _).symm, by simp⟩

/-- What is added under an id that is not kept leaves a registry in order, and is found. -/
theorem InOrder.add (h : r.InOrder) (hid : firstFreeId ≤ reg.id) {r' : Registry}
    (hadd : add reg r = .ok () r') : r'.InOrder ∧ r'.find? reg.type = some reg := by
  obtain ⟨⟨err, herr⟩, -⟩ | ⟨hok, hreg⟩ := add_cases r reg
  · cases herr.symm.trans hadd
  · cases hok.symm.trans hadd
    obtain ⟨own, hown, hfree⟩ := h.own
    refine ⟨⟨h.concat hreg, own ++ [reg], ?_, ?_⟩, ?_⟩
    · dsimp only
      rw [hown, List.append_assoc]
    · exact List.forall_mem_append.2 ⟨hfree, List.forall_mem_singleton.2 hid⟩
    · exact (h.concat hreg).find?_iff_mem.2 (List.mem_append_right _ (List.mem_singleton_self reg))

theorem InOrder.mem_of_builtins (h : r.InOrder) (hm : reg ∈ builtins.registrations) :
    reg ∈ r.registrations := by
  obtain ⟨own, hown, -⟩ := h.own
  rw [hown]
  exact List.mem_append_left own hm

theorem InOrder.builtin_or_free (h : r.InOrder) (hm : reg ∈ r.registrations) :
    reg ∈ builtins.registrations ∨ firstFreeId ≤ reg.id := by
  obtain ⟨own, hown, hfree⟩ := h.own
  rw [hown] at hm
  exact (List.mem_append.1 hm).imp_right (hfree reg)

end Registry

namespace Engine

/-! ## Calls -/

/-- The calls by which an application adds types. -/
inductive Enrolment where
  | any (reg : Registration)
  | serializer (id : Nat) (type : ObjectType) (serializer : Serializer)
  | map (id : Nat) (type : ContainerType)
  | mapWith (id : Nat) (type : ContainerType) (binding : MapBinding)

/-- What a call does. -/
def Enrolment.run : Enrolment → EStateM Error Engine Unit
  | any reg => add reg
  | serializer id type given => addSerializer id type given
  | map id type => addMap id type
  | mapWith id type binding => addMapWith id type binding

/-- The registration that a call adds. -/
def Enrolment.registration : Enrolment → Registration
  | any reg => reg
  | serializer id type given => .ofSerializer type id given
  | map id type => .ofContainer type id
  | mapWith id type binding => .ofBinding type id binding

/-- What calls make of an engine, those that fail and those that do not. -/
def enrolled (e : Engine) (calls : List Enrolment) : Engine :=
  calls.foldl (fun e call => stateAfter call.run e) e

variable {e : Engine} {calls : List Enrolment}

theorem Enrolment.run_eq (call : Enrolment) : call.run = add call.registration := by
  cases call <;> rfl

/-- **A call is refused and nothing is changed, or it is admitted**: then the registry is still
    in order and what was added is found. -/
theorem enrolment_cases (he : e.registry.InOrder) (call : Enrolment) :
    (∃ err, call.run e = .error err e) ∧ ¬(Registry.firstFreeId ≤ call.registration.id ∧
        e.registry.Admits call.registration) ∨
      ∃ e', call.run e = .ok () e' ∧ (Registry.firstFreeId ≤ call.registration.id ∧
          e.registry.Admits call.registration) ∧
        e'.registry.InOrder ∧
          e'.registry.find? call.registration.type = some call.registration := by
  rw [call.run_eq]
  refine (add_cases e call.registration).imp_right ?_
  rintro ⟨r, hok, hr, hfree⟩
  exact ⟨_, hok, hfree, he.add hfree.1 hr⟩

theorem enrolled_call (he : e.registry.InOrder) (call : Enrolment) :
    (stateAfter call.run e).registry.InOrder := by
  unfold stateAfter
  obtain ⟨⟨err, herr⟩, -⟩ | ⟨e', hok, -, he', -⟩ := enrolment_cases he call
  · rwa [herr]
  · rwa [hok]

theorem enrolled_inOrder (he : e.registry.InOrder) (calls : List Enrolment) :
    (e.enrolled calls).registry.InOrder := by
  unfold enrolled
  induction calls generalizing e with
  | nil => exact he
  | cons call calls ih => exact ih (enrolled_call he call)

/-! ## What is written for a type -/

/-- The number that is written for the type of a registration. -/
def code (reg : Registration) : BitVec 32 := BitVec.ofNat _ (reg.id + 1)

/-- Whether objects of a registered type are written with a number that is not that of null, and
    by which a reader finds the same registration. -/
structure Identifies (e : Engine) (reg : Registration) : Prop where
  /-- An object is written after the number, once the serializer of its type is known. -/
  written : ∀ (h : Heap) (o : ObjId), h.typeOf o = reg.type → ∀ nested,
    Writing.anyVia e h nested (some o) = do
      let serializer ← attempt (e.registry.serializer reg.type)
      Writing.put (.var .u32 (code reg))
      Writing.unlessWritten nested (e.tracks reg.toClassInfo) o serializer
  not_null : code reg ≠ 0
  found : e.registry.findId? ((code reg).toNat - 1) = some reg
  /-- The bytes of the number are read as the number. -/
  scanned : ∀ native, Scan.Reads native (Input.var .u32)
    ((Item.var .u32 (code reg)).encode native) (code reg)
  /-- After the number an object of the registration is read. -/
  read : ∀ nested (s : ReadState) i, Input.var .u32 s.input = .ok (code reg) i →
    Reading.anyVia e nested s = (do
      let serializer ← attempt (e.registry.serializer reg.type)
      return some (← Reading.objectVia e nested reg.toClassInfo serializer) : Reading Value)
        { s with input := i }

theorem toNat_code {reg : Registration} (hid : reg.id + 1 < 2 ^ 32) :
    (code reg).toNat = reg.id + 1 := by
  unfold code
  rw [BitVec.toNat_ofNat, Nat.mod_eq_of_lt hid]

theorem identifies_of_oneToOne (he : e.registry.OneToOne) {reg : Registration}
    (hreg : e.registry.find? reg.type = some reg) (hid : reg.id + 1 < 2 ^ 32) :
    e.Identifies reg := by
  have hcode := toNat_code hid
  have hfound : e.registry.findId? ((code reg).toNat - 1) = some reg := by
    rw [hcode, Nat.add_sub_cancel]
    exact he.find?_iff.1 hreg
  constructor
  · intro h o ho nested
    have hclass : e.registry.classOfObject reg.type = .ok reg.toClassInfo :=
      Registry.classOfObject_eq_ok.2 ⟨reg, hreg, rfl⟩
    unfold Writing.anyVia
    dsimp only
    rw [ho, hclass, attempt_ok, pure_bind]
    rfl
  · intro hzero
    rw [hzero] at hcode
    cases hcode
  · exact hfound
  · exact fun native => Input.reads_var .u32 (code reg)
  · intro nested s i hi
    have hclass : e.registry.classOfId ((code reg).toNat - 1) = .ok reg.toClassInfo :=
      Registry.classOfId_eq_ok.2 ⟨reg, hfound, rfl⟩
    have hcount : Reading.count s = .ok (code reg).toNat { s with input := i } := by
      unfold Reading.count
      refine bind_of_ok ?_
      unfold Reading.scan
      rw [hi]
    unfold Reading.anyVia
    rw [bind_of_ok hcount, if_neg (by rw [hcode]; exact Nat.succ_ne_zero _), hclass, attempt_ok,
      pure_bind]

/-! ## All calls -/

/-- **The registry stays a one-to-one table.**  After any calls of an application, those that
    fail and those that do not, what is found by its type is found by its id and each stands
    once; the built-in types are unchanged and keep their ids to themselves; a call that fails
    changes nothing, and one whose type and id are free succeeds; and the number that is written
    for a type is not that of null and is read as that of the same registration. -/
theorem registry_one_to_one (config : Config) (calls : List Enrolment) :
    (enrolled { config } calls).registry.OneToOne ∧
    (∀ reg, (enrolled { config } calls).registry.find? reg.type = some reg ↔
      (enrolled { config } calls).registry.findId? reg.id = some reg) ∧
    (∀ reg ∈ Registry.builtins.registrations,
      (enrolled { config } calls).registry.find? reg.type = some reg) ∧
    (∀ reg ∈ (enrolled { config } calls).registry.registrations,
      reg ∈ Registry.builtins.registrations ∨ Registry.firstFreeId ≤ reg.id) ∧
    (∀ (call : Enrolment) err e', call.run (enrolled { config } calls) = .error err e' →
      e' = enrolled { config } calls) ∧
    (∀ call : Enrolment, (∃ e', call.run (enrolled { config } calls) = .ok () e' ∧
        e'.registry.find? call.registration.type = some call.registration) ↔
      Registry.firstFreeId ≤ call.registration.id ∧
        (enrolled { config } calls).registry.Admits call.registration) ∧
    ∀ reg, (enrolled { config } calls).registry.find? reg.type = some reg →
      reg.id + 1 < 2 ^ 32 → (enrolled { config } calls).Identifies reg := by
  have horder : (enrolled { config } calls).registry.InOrder :=
    enrolled_inOrder Registry.inOrder_builtins calls
  generalize enrolled { config } calls = e at horder
  refine ⟨horder.toOneToOne, fun reg => horder.find?_iff, fun reg hm => ?_, fun reg hm => ?_,
    fun call err e' hcall => ?_, fun call => ?_, fun reg => ?_⟩
  · exact horder.find?_iff_mem.2 (horder.mem_of_builtins hm)
  · exact horder.builtin_or_free hm
  · obtain ⟨⟨err', herr⟩, -⟩ | ⟨e₁, hok, -⟩ := enrolment_cases horder call
    · cases herr.symm.trans hcall
      rfl
    · cases hok.symm.trans hcall
  · obtain ⟨⟨err, herr⟩, hrefused⟩ | ⟨e₁, hok, hfree, -, hfind⟩ := enrolment_cases horder call
    · refine iff_of_false ?_ hrefused
      rintro ⟨e', hcall, -⟩
      cases herr.symm.trans hcall
    · exact iff_of_true ⟨e₁, hok, hfind⟩ hfree
  · exact identifies_of_oneToOne horder.toOneToOne

/-- Three types that are added, and three that are refused: for their id, which is taken or kept
    for the built-in types, or as they are there already. -/
def threeOfSix : List Enrolment :=
  [.map 40 (.named 0), .map 40 (.named 1), .mapWith 31 (.named 1) {}, .serializer 41 .octet .octet,
    .any (.ofContainer (.named 0) 43),
    .mapWith 42 (.named 1) { key := { type := some (.container (.named 0)) } }]

theorem registry_one_to_one_threeOfSix :
    (enrolled {} threeOfSix).registry.byId.map (·.id) =
      [1, 2, 3, 4, 5, 6, 7, 8, 9, 10, 40, 41, 42] ∧
    (enrolled {} threeOfSix).Identifies
      (.ofBinding (.named 1) 42 { key := { type := some (.container (.named 0)) } }) :=
  ⟨by decide, (registry_one_to_one {} threeOfSix).2.2.2.2.2.2 _ rfl (by decide)⟩

end Engine

end GraphWire

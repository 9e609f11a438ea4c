/-
  Null where it is forbidden.

  Both sides of an entry are checked before either is written.  So a null that is forbidden
  stops the writing of a container before its entry begins: what was written is how many
  entries there are and the entries before, and no object that only its entry leads to has a
  number.

  * `Writing.Within` says that a writing appends, and numbers objects of a kind only, however
    it ends; `Writing.withinNested_data`: of what leads to all that is written;
  * `Writing.entriesVia_of_admitted`: where nothing forbids an entry, the loop goes on behind it;
  * `Writing.InTurn`: entries written one after the other, each with its bytes;
  * `Writing.stops_at_null`: a forbidden null stops the loop at its entry.
-/
import GraphWire.Proofs.Cursors
import GraphWire.Proofs.Heights
import GraphWire.Proofs.Mirroring

namespace GraphWire

variable {α β : Type}

theorem Heap.container?_eq_some {h : Heap} {o : ObjId} {c : Container} :
    h.container? o = some c ↔ h.node o = .container c := by
  unfold container?
  cases h.node o <;> simp

/-! ## What a writing adds -/

/-- Whether a writing came from a state to another by appending bytes and by giving numbers to
    objects of a kind. -/
structure WriteState.Grown (S : ObjId → Prop) (s s' : WriteState) : Prop where
  out : ∃ bs, s'.out = s.out.append bs
  written : ∃ new, s'.written.objects = s.written.objects ++ new ∧ ∀ o ∈ new, S o

namespace WriteState.Grown

variable {S S' : ObjId → Prop} {s s₁ s' : WriteState}

theorem refl (s : WriteState) : Grown S s s :=
  ⟨⟨[], (Output.append_nil _).symm⟩, [], (List.append_nil _).symm, by simp⟩

theorem trans (h : Grown S s s₁) (h' : Grown S s₁ s') : Grown S s s' := by
  obtain ⟨⟨bs, hbs⟩, new, hnew, hS⟩ := h
  obtain ⟨⟨cs, hcs⟩, new', hnew', hS'⟩ := h'
  refine ⟨⟨bs ++ cs, ?_⟩, new ++ new', ?_, fun o ho => ?_⟩
  · rw [hcs, hbs, Output.append_append]
  · rw [hnew', hnew, List.append_assoc]
  · exact (List.mem_append.1 ho).elim (hS o) (hS' o)

theorem mono (h : Grown S s s') (hS : ∀ o, S o → S' o) : Grown S' s s' := by
  obtain ⟨hout, new, hnew, hn⟩ := h
  exact ⟨hout, new, hnew, fun o ho => hS o (hn o ho)⟩

/-- Scopes do not matter. -/
theorem inScope (h : Grown S (inScope f s) s') (g : Scope → Scope) :
    Grown S s (GraphWire.inScope g s') := ⟨h.out, h.written⟩

end WriteState.Grown

namespace Writing

/-- Whether a writing appends and numbers objects of a kind only, however it ends. -/
def Within (S : ObjId → Prop) (x : Writing α) : Prop :=
  ∀ s, Leads (fun _ => s.Grown S) (s.Grown S) (x s)

variable {S S' : ObjId → Prop} {x : Writing α}

namespace Within

protected theorem pure (a : α) : Within S (pure a) := .refl

protected theorem throw (e : Error) : Within S (throw e : Writing α) := .refl

theorem mono (hx : Within S x) (hS : ∀ o, S o → S' o) : Within S' x := fun s =>
  (hx s).mono (fun _ _ h => h.mono hS) fun _ h => h.mono hS

protected theorem bind {f : α → Writing β} (hx : Within S x) (hf : ∀ a, Within S (f a)) :
    Within S (x >>= f) := fun s =>
  (hx s).bind fun a s₁ h₁ => (hf a s₁).mono (fun _ _ => h₁.trans) fun _ => h₁.trans

protected theorem get_bind {f : WriteState → Writing α} (hf : ∀ s, Within S (f s)) :
    Within S (get >>= f) := fun s => hf s s

protected theorem attempt_bind {y : Except Error β} {f : β → Writing α}
    (hf : ∀ b, Within S (f b)) : Within S (attempt y >>= f) := by
  cases y with
  | ok b => exact hf b
  | error e => exact .throw e

/-- What changes only the scope before and after adds what is in between. -/
theorem between (hx : Within S x) (f g : Scope → Scope) (s : WriteState) :
    Leads (fun _ => s.Grown S) (s.Grown S) (leaving (inScope g) x (inScope f s)) := by
  have hrun := hx (inScope f s)
  unfold leaving
  cases hr : x (inScope f s) with
  | ok a s₁ =>
    rw [hr] at hrun
    exact WriteState.Grown.inScope hrun g
  | error e s₁ =>
    rw [hr] at hrun
    exact WriteState.Grown.inScope hrun g

protected theorem declaring (hx : Within S x) (ty : Declared) : Within S (declaring ty x) := by
  intro s
  rw [declaring_apply]
  exact hx.between _ _ s

protected theorem descend (hx : Within S x) (limit : Nat) : Within S (descend limit x) := by
  intro s
  rw [descend_apply]
  split
  · exact .refl s
  · exact hx.between _ _ s

theorem put (i : Item) : Within S (put i) := fun s =>
  ⟨⟨i.encode s.out.native, rfl⟩, [], (List.append_nil _).symm, by simp⟩

theorem announce {o : ObjId} (ho : S o) : Within S (announce o) := by
  intro s
  cases hn : s.written.number? o with
  | some i =>
    rw [announce_of_some hn]
    exact ⟨⟨_, rfl⟩, [], (List.append_nil _).symm, by simp⟩
  | none =>
    rw [announce_of_none hn]
    exact ⟨⟨_, rfl⟩, [o], rfl, by simpa using ho⟩

end Within

/-! ## One level -/

variable {e : Engine} {h : Heap} {nested : ObjId → Serializer → Writing Unit}

/-- Whether the writing of a nested object numbers only objects that it leads to. -/
def WithinNested (h : Heap) (nested : ObjId → Serializer → Writing Unit) : Prop :=
  ∀ o ser, Within (h.Leads (some o)) (nested o ser)

namespace WithinNested

variable (hn : WithinNested h nested)
include hn

theorem unlessWritten (tracked : Bool) (o : ObjId) (ser : Serializer) :
    Within (h.Leads (some o)) (unlessWritten nested tracked o ser) := by
  unfold Writing.unlessWritten
  split
  · refine (Within.announce .self).bind fun again => ?_
    split
    · exact .pure ()
    · exact hn o ser
  · exact hn o ser

theorem nullable (v : Value) (c : ClassInfo) (ser : Serializer) :
    Within (h.Leads v) (nullableVia e h nested v c ser) := by
  cases v with
  | none => exact .put _
  | some o =>
    refine .attempt_bind fun _ => ?_
    split
    · exact hn.unlessWritten true o ser
    · exact (Within.put _).bind fun _ => hn o ser

theorem object (v : Value) (c : ClassInfo) (ser : Serializer) :
    Within (h.Leads v) (objectVia e h nested v c ser) := by
  cases v with
  | none => exact .throw _
  | some o => exact .attempt_bind fun _ => hn.unlessWritten _ o ser

theorem any (v : Value) : Within (h.Leads v) (anyVia e h nested v) := by
  cases v with
  | none => exact .put _
  | some o =>
    refine .attempt_bind fun c => .attempt_bind fun ser => ?_
    exact (Within.put _).bind fun _ => hn.unlessWritten _ o ser

theorem declared (ty : Declared) (v : Value) :
    Within (h.Leads v) (declaredVia e h nested ty v) := by
  refine Within.declaring ?_ ty
  split
  · exact .attempt_bind fun c => .attempt_bind fun ser => hn.nullable v c ser
  · exact hn.any v

theorem side (slot : Slot) (v : Value) : Within (h.Leads v) (sideVia e h nested slot v) := by
  unfold sideVia
  split
  · split
    · exact hn.nullable v _ _
    · exact hn.object v _ _
  · exact hn.any v

end WithinNested

/-- Writes both sides of an entry, whatever stands there. -/
def entryVia (e : Engine) (h : Heap) (nested : ObjId → Serializer → Writing Unit)
    (keySlot valueSlot : Slot) (keyType : Declared) (x : Entry) : Writing Unit := do
  declaring keyType (sideVia e h nested keySlot x.1)
  sideVia e h nested valueSlot x.2

/-- Whether a side of an entry leads to an object. -/
def EntryLeads (h : Heap) (x : Entry) (o : ObjId) : Prop := h.Leads x.1 o ∨ h.Leads x.2 o

namespace WithinNested

variable (hn : WithinNested h nested)
include hn

theorem entry (keySlot valueSlot : Slot) (keyType : Declared) (x : Entry) :
    Within (EntryLeads h x) (entryVia e h nested keySlot valueSlot keyType x) :=
  (((hn.side keySlot x.1).declaring keyType).mono fun _ => Or.inl).bind fun _ =>
    (hn.side valueSlot x.2).mono fun _ => Or.inr

theorem forM (keySlot valueSlot : Slot) (keyType : Declared) (l : List Entry) :
    Within (fun o => ∃ x ∈ l, EntryLeads h x o)
      (l.forM (entryVia e h nested keySlot valueSlot keyType)) := by
  induction l with
  | nil => exact .pure ()
  | cons x l ih =>
    refine ((hn.entry keySlot valueSlot keyType x).mono fun o ho => ?_).bind fun _ =>
      ih.mono fun o ⟨y, hy, ho⟩ => ?_
    · exact ⟨x, List.mem_cons_self, ho⟩
    · exact ⟨y, List.mem_cons_of_mem x hy, ho⟩

theorem entries (keySlot valueSlot : Slot) (keyType : Declared) (l : List Entry) :
    Within (fun o => ∃ x ∈ l, EntryLeads h x o)
      (entriesVia e h nested keySlot valueSlot keyType l) := by
  induction l with
  | nil => exact .pure ()
  | cons x l ih =>
    refine .attempt_bind fun _ => .attempt_bind fun _ => ?_
    rw [← bind_assoc]
    refine ((hn.entry keySlot valueSlot keyType x).mono fun o ho => ?_).bind fun _ =>
      ih.mono fun o ⟨y, hy, ho⟩ => ?_
    · exact ⟨x, List.mem_cons_self, ho⟩
    · exact ⟨y, List.mem_cons_of_mem x hy, ho⟩

theorem map (key value : SideSetup Serializer) (o : ObjId) :
    Within (h.Leads (some o)) (mapVia e h nested key value o) := by
  unfold mapVia
  split
  · exact .throw _
  · next c hc =>
    have hnode := Heap.container?_eq_some.1 hc
    refine (Within.put _).bind fun _ => .get_bind fun s => .get_bind fun s₁ =>
      .attempt_bind fun ⟨keySlot, valueSlot, keyType⟩ => ?_
    refine ((hn.entries keySlot valueSlot keyType c.entries).mono ?_).bind fun _ s => ?_
    · rintro p ⟨x, hx, hp | hp⟩
      · exact .part (Heap.fst_mem_parts hnode hx) hp
      · exact .part (Heap.snd_mem_parts hnode hx) hp
    · exact ⟨⟨[], (Output.append_nil _).symm⟩, [], (List.append_nil _).symm, by simp⟩

theorem fields (tys : List Declared) (vs : List Value) :
    Within (fun o => ∃ v ∈ vs, h.Leads v o) (fieldsVia e h nested tys vs) := by
  induction tys generalizing vs with
  | nil => exact .pure ()
  | cons ty tys ih =>
    refine ((hn.declared ty (vs.headD none)).mono fun o ho => ?_).bind fun _ =>
      (ih vs.tail).mono fun o ⟨v, hv, ho⟩ => ⟨v, List.mem_of_mem_tail hv, ho⟩
    cases vs with
    | nil => cases ho
    | cons v vs => exact ⟨v, List.mem_cons_self, ho⟩

theorem body (o : ObjId) (ser : Serializer) :
    Within (h.Leads (some o)) (bodyVia e h nested o ser) := by
  cases ser with
  | leaf type =>
    simp only [bodyVia]
    split
    · split
      · exact .put _
      · exact .throw _
    · exact .throw _
  | octet =>
    simp only [bodyVia]
    split
    · exact .put _
    · exact .throw _
  | record fields binds =>
    simp only [bodyVia]
    split
    · next vs hnode =>
      refine (hn.fields fields vs).mono fun p ⟨v, hv, hp⟩ => .part ?_ hp
      rw [hnode]
      exact hv
    · exact .throw _
  | map key value factory => exact hn.map key value o

end WithinNested

/-- **A writing takes nothing back and numbers only what it comes to**, at all levels and
    however it ends. -/
theorem withinNested_data (e : Engine) (h : Heap) (levels : Nat) :
    WithinNested h (data e h levels) := by
  induction levels with
  | zero => exact fun _ _ s => .refl s
  | succ levels ih => exact fun o ser => (ih.body o ser).descend _

/-! ## One entry after the other -/

/-- Whether entries are written one after the other, from a state to another, and which bytes
    each of them appends. -/
inductive InTurn (write : Entry → Writing Unit) :
    List Entry → WriteState → List Bytes → WriteState → Prop
  | nil (s : WriteState) : InTurn write [] s [] s
  | cons {x : Entry} {l : List Entry} {s s₁ s' : WriteState} {bs : Bytes} {bss : List Bytes} :
      write x s = .ok () s₁ → s₁.out = s.out.append bs → InTurn write l s₁ bss s' →
      InTurn write (x :: l) s (bs :: bss) s'

theorem InTurn.out {write : Entry → Writing Unit} {l : List Entry} {s s' : WriteState}
    {bss : List Bytes} (ht : InTurn write l s bss s') : s'.out = s.out.append bss.flatten := by
  induction ht with
  | nil s => exact (Output.append_nil _).symm
  | cons _ hout _ ih => rw [ih, hout, Output.append_append, List.flatten_cons]

/-- What is written entry by entry is written in turn. -/
theorem exists_inTurn {write : Entry → Writing Unit} (hwrite : ∀ x, ∃ S, Within S (write x))
    {l : List Entry} {s s' : WriteState} (hw : l.forM write s = .ok () s') :
    ∃ bss, InTurn write l s bss s' := by
  induction l generalizing s with
  | nil =>
    cases hw
    exact ⟨[], .nil _⟩
  | cons x l ih =>
    obtain ⟨_, s₁, hx, hl⟩ := bind_eq_ok.1 hw
    obtain ⟨S, hS⟩ := hwrite x
    have hgrown := hS s
    rw [hx] at hgrown
    obtain ⟨bs, hbs⟩ := hgrown.out
    obtain ⟨bss, hbss⟩ := ih hl
    exact ⟨bs :: bss, .cons hx hbs hbss⟩

/-! ## Null on a side -/

/-- The side of an entry on which null stands though it is forbidden there, the key first. -/
def forbidden? (key value : SideSetup Serializer) (x : Entry) : Option Side :=
  if x.1.isNone && !key.nullable then some .key
  else if x.2.isNone && !value.nullable then some .value
  else none

end Writing

/-- What a side refuses does not depend on what is declared of it. -/
theorem Slot.check_of_resolve {r : Registry} {frames : Frames} {declared : Option Declared}
    {side : Side} {setup : SideSetup Serializer} {slot : Slot}
    (hs : Slot.resolve r frames declared side setup = .ok slot) (v : Value) :
    slot.check v = if v.isNone && !setup.nullable then .error (.nullEntry side) else .ok () := by
  have hslot : slot.nullable = setup.nullable ∧ slot.side = side := by
    unfold resolve at hs
    split at hs
    · cases hs
      exact ⟨rfl, rfl⟩
    split at hs
    · cases hs
      exact ⟨rfl, rfl⟩
    · obtain ⟨c, -, hs⟩ := except_bind_eq_ok.1 hs
      obtain ⟨ser, -, hs⟩ := except_bind_eq_ok.1 hs
      cases hs
      exact ⟨rfl, rfl⟩
  unfold check ensure
  rw [hslot.1, hslot.2]
  cases v <;> cases setup.nullable <;> rfl

namespace Writing

section
variable {e : Engine} {h : Heap} {nested : ObjId → Serializer → Writing Unit}
  {key value : SideSetup Serializer} {frames : Frames} {args : List Declared}
  {keySlot valueSlot : Slot} {keyType : Declared}
  (hslots : resolveSlots e.registry frames args key value = .ok (keySlot, valueSlot, keyType))
include hslots

/-- Both sides are checked before either is written. -/
theorem entriesVia_cons (x : Entry) (l : List Entry) :
    entriesVia e h nested keySlot valueSlot keyType (x :: l) =
      match forbidden? key value x with
      | some side => throw (.nullEntry side)
      | none =>
        entryVia e h nested keySlot valueSlot keyType x >>= fun _ =>
          entriesVia e h nested keySlot valueSlot keyType l := by
  obtain ⟨hkey, hvalue, -⟩ := resolveSlots_eq_ok.1 hslots
  have hk : keySlot.check x.1 =
      if x.1.isNone && !key.nullable then .error (.nullEntry .key) else .ok () :=
    Slot.check_of_resolve hkey x.1
  have hv : valueSlot.check x.2 =
      if x.2.isNone && !value.nullable then .error (.nullEntry .value) else .ok () :=
    Slot.check_of_resolve hvalue x.2
  rw [entriesVia, hk, hv]
  unfold forbidden?
  by_cases hkey : (x.1.isNone && !key.nullable) = true
  · rw [if_pos hkey, if_pos hkey]
    rfl
  rw [if_neg hkey, if_neg hkey]
  by_cases hvalue : (x.2.isNone && !value.nullable) = true
  · rw [if_pos hvalue, if_pos hvalue]
    rfl
  rw [if_neg hvalue, if_neg hvalue]
  exact (bind_assoc (declaring keyType (sideVia e h nested keySlot x.1)) _ _).symm

theorem entriesVia_of_admitted {pre : List Entry} (hpre : ∀ y ∈ pre, forbidden? key value y = none)
    (l : List Entry) : entriesVia e h nested keySlot valueSlot keyType (pre ++ l) = (do
      pre.forM (entryVia e h nested keySlot valueSlot keyType)
      entriesVia e h nested keySlot valueSlot keyType l) := by
  induction pre with
  | nil => rfl
  | cons y pre ih =>
    obtain ⟨hy, hpre⟩ := List.forall_mem_cons.1 hpre
    rw [List.cons_append, entriesVia_cons hslots, hy, ih hpre]
    exact (bind_assoc _ _ _).symm

end

/-- **A forbidden null stops the writing before its entry begins**, whatever is said of the
    sides, whatever was written before and under whichever frames.  What was appended is how
    many entries there are and then the bytes of the entries before, in their order, each from
    where the one before it ended.  The state is the one after them: all numbers given are of
    objects that they lead to. -/
theorem stops_at_null {e : Engine} {h : Heap} {levels : Nat} {key value : SideSetup Serializer}
    {o : ObjId} {c : Container} {pre post : List Entry} {x : Entry} {side : Side}
    {s s' : WriteState} {keySlot valueSlot : Slot} {keyType : Declared}
    (hc : h.node o = .container c) (hentries : c.entries = pre ++ x :: post)
    (hslots : resolveSlots e.registry s.scope.frames ((declaredArgs s).getD []) key value =
      .ok (keySlot, valueSlot, keyType))
    (hpre : ∀ y ∈ pre, forbidden? key value y = none) (hx : forbidden? key value x = some side)
    (hw : pre.forM (entryVia e h (data e h levels) keySlot valueSlot keyType)
      (stateAfter (count c.entries.length) s) = .ok () s') :
    mapVia e h (data e h levels) key value o s = .error (.nullEntry side) s' ∧
      (Error.nullEntry side).kind = .nullNotAllowed ∧
      (∃ bss, InTurn (entryVia e h (data e h levels) keySlot valueSlot keyType) pre
          (stateAfter (count c.entries.length) s) bss s' ∧
        s'.out = s.out.append (countBytes s.out.native c.entries.length ++ bss.flatten)) ∧
      ∃ new, s'.written.objects = s.written.objects ++ new ∧
        ∀ p ∈ new, ∃ y ∈ pre, EntryLeads h y p := by
  have hn := withinNested_data e h levels
  have hcount : count c.entries.length s = .ok () (stateAfter (count c.entries.length) s) := rfl
  have hout : (stateAfter (count c.entries.length) s).out =
      s.out.append (countBytes s.out.native c.entries.length) := rfl
  generalize hs₁ : stateAfter (count c.entries.length) s = s₁ at *
  have hscope : s₁.scope = s.scope := hs₁ ▸ rfl
  have hwritten : s₁.written = s.written := hs₁ ▸ rfl
  refine ⟨?_, rfl, ?_, ?_⟩
  · have hloop : entriesVia e h (data e h levels) keySlot valueSlot keyType c.entries s₁ =
        .error (.nullEntry side) s' := by
      rw [hentries, entriesVia_of_admitted hslots hpre, bind_of_ok hw, entriesVia_cons hslots, hx]
      rfl
    unfold mapVia
    rw [Heap.container?_eq_some.2 hc]
    refine bind_eq_error.2 (Or.inr ⟨(), s₁, hcount, ?_⟩)
    have hargs : (declaredArgs s₁).getD [] = (declaredArgs s).getD [] := congrArg Scope.args hscope
    rw [get_bind, get_bind, hargs, hscope, hslots, attempt_ok, pure_bind]
    exact bind_eq_error.2 (Or.inl hloop)
  · obtain ⟨bss, ht⟩ := exists_inTurn (fun x => ⟨_, hn.entry keySlot valueSlot keyType x⟩) hw
    exact ⟨bss, ht, by rw [ht.out, hout, Output.append_append]⟩
  · have hgrown := hn.forM (e := e) keySlot valueSlot keyType pre s₁
    rw [hw] at hgrown
    exact hwritten ▸ hgrown.written

/-- A container that maps a number to a container, and a container to null. -/
def gapped : Heap :=
  ⟨#[.container (.hash ⟨[(some 1, some 2), (some 3, none)]⟩), .leaf (.i32 7),
    .container (.empty .linked), .container (.empty .hash)]⟩

/-- Where values are never null the first entry is written, and no byte or number of the
    second. -/
theorem stops_at_null_gapped :
    let e : Engine := { config := { trackRef := true } }
    let value : SideSetup Serializer := { nullable := false }
    let write :=
      entryVia e gapped (data e gapped 5) ⟨none, true, .key⟩ ⟨none, false, .value⟩ .unknown
    ∃ s', mapVia e gapped (data e gapped 5) {} value 0 (.start (.empty false)) =
        .error (.nullEntry .value) s' ∧
      s'.out.bytes = [2, 5, 14, 11, 0, 0] ∧ s'.written.objects = [2] ∧
      ∃ bss, InTurn write [(some 1, some 2)] (stateAfter (count 2) (.start (.empty false))) bss s' ∧
        bss.flatten = [5, 14, 11, 0, 0] := by
  intro e value write
  let first := [((some 1, some 2) : Entry)].forM write
  let s₁ := stateAfter (count 2) (.start (.empty false))
  have hok : resultOf first s₁ = .ok () := by decide +kernel
  have hend : (stateAfter first s₁).out.bytes = [2, 5, 14, 11, 0, 0] ∧
      (stateAfter first s₁).written.objects = [2] := by decide +kernel
  obtain ⟨s', hw⟩ := resultOf_eq_ok.1 hok
  have hs' : stateAfter first s₁ = s' := by simp [stateAfter, hw]
  rw [hs'] at hend
  let c : Container := .hash ⟨[(some 1, some 2), (some 3, none)]⟩
  let start : WriteState := .start (.empty false)
  have hc : gapped.node 0 = .container c := rfl
  have hentries : c.entries = [(some 1, some 2)] ++ (some 3, none) :: [] := rfl
  have hslots : resolveSlots e.registry start.scope.frames ((declaredArgs start).getD []) {} value =
      .ok (⟨none, true, .key⟩, ⟨none, false, .value⟩, .unknown) := rfl
  have hnull : forbidden? {} value (some 3, none) = some .value := rfl
  obtain ⟨herror, -, ⟨bss, hturn, hout⟩, -⟩ :=
    stops_at_null hc hentries hslots (by simp [forbidden?]) hnull hw
  refine ⟨s', herror, hend.1, hend.2, bss, hturn, ?_⟩
  have hcount : countBytes false 2 = [2] := by decide +kernel
  have hflat := hend.1
  rw [hout, Output.bytes_append] at hflat
  change [] ++ (countBytes false 2 ++ bss.flatten) = _ at hflat
  rw [hcount] at hflat
  exact List.append_cancel_left hflat

end Writing

end GraphWire

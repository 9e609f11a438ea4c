/-
  How the limit on nesting decides.

  Where references are not tracked and nothing is said of the sides of containers, a value is
  written iff it is no higher than the limit, and what was written is read iff it is no higher
  than the limit of the reader.  Whatever is higher, or leads into a cycle, runs into the limit.

  * `Writing.Stops` says that a writing runs into the limit; a value that is too high does
    (`Writing.stops_data`), though what stands before it is written;
  * `Reading.Heeds` says that a reading of some bytes succeeds or runs into the limit, as a
    condition holds or not, with a rule for each way to compose readings;
  * `Engine.serialize_by_height`: the limit decides exactly, on both sides.
-/
import GraphWire.Proofs.Identity
import GraphWire.Proofs.Spelling

namespace GraphWire

variable {α β : Type}

/-! ## Plain engines -/

/-- The engines of an application that adds containers of which nothing more is said. -/
inductive Engine.Plain : Engine → Prop
  | start (config : Config) : Plain { config }
  | registerMap {e e' : Engine} {id : Nat} {type : ContainerType} : Plain e → id + 1 < 2 ^ 32 →
      e.registerMap id type = .ok e' → Plain e'

namespace Engine.Plain

variable {e : Engine}

theorem assembled (he : e.Plain) : e.Assembled := by
  induction he with
  | start config => exact .start config
  | registerMap _ hid h ih => exact .registerMap ih hid h

theorem binding_eq (he : e.Plain) : ∀ reg ∈ e.registry.registrations, reg.binding = {} := by
  induction he with
  | start config =>
    show ∀ reg ∈ Registry.builtins.registrations, _
    rw [Registry.registrations_builtins]
    simp only [List.forall_mem_cons]
    exact ⟨rfl, rfl, rfl, rfl, rfl, rfl, rfl, rfl, rfl, rfl, by simp⟩
  | registerMap _ _ h ih =>
    obtain ⟨hadd, -⟩ := Registry.register_eq_ok (registry_of_register h)
    rw [hadd]
    intro reg hm
    rcases List.mem_append.1 hm with hm | hm
    · exact ih reg hm
    · rw [List.mem_singleton.1 hm]
      rfl

/-- Nothing is said of the sides of containers. -/
theorem unbound (he : e.Plain) : e.Unbound := by
  rintro b ⟨type, reg, -, hreg, -, hb⟩
  rw [he.binding_eq reg (Registry.mem_of_find? hreg)] at hb
  rcases hb with rfl | rfl <;> exact ⟨rfl, rfl⟩

/-- Every type that is registered has a serializer. -/
theorem knows (he : e.Plain) {t : ObjectType} (ht : (e.registry.find? t).isSome) :
    e.registry.Knows t := by
  obtain ⟨reg, hreg⟩ := Option.isSome_iff_exists.1 ht
  obtain rfl := Registry.type_of_find? hreg
  have hm := Registry.mem_of_find? hreg
  have hb := he.binding_eq reg hm
  refine ⟨reg.toClassInfo, ?_⟩
  cases hst : reg.type with
  | leaf type => exact ⟨_, .leaf (hst ▸ hreg), rfl⟩
  | container type =>
    exact ⟨_, @Registry.Gives.map e.registry type reg none none (hst ▸ hreg) (by simp [hb])
      (by simp [hb]) (by simp) (by simp), rfl⟩
  | octet | record | foreign => cases he.assembled.sound.standard reg hm <;> cases hst

end Engine.Plain

/-- The same engine with another limit. -/
def Engine.limited (e : Engine) (limit : Nat) : Engine :=
  { e with config := { e.config with maxDepth := limit } }

/-- The error of what runs into the limit. -/
def Engine.limitError (e : Engine) : Error :=
  .depthExceeded e.config.maxDepth (e.config.maxDepth + 1)

/-! ## Writings -/

/-- Whether a writing runs into the limit, where there are no frames and just so many levels are
    left. -/
def Writing.Stops (e : Engine) (n : Nat) (x : Writing Unit) : Prop :=
  ∀ s : WriteState, s.scope.frames = .empty → s.scope.depth + n = e.config.maxDepth →
    s.out.native = e.config.native → ∃ s', x s = .error e.limitError s'

namespace Writing.Stops

variable {e : Engine} {n : Nat} {x y : Writing Unit} {bs : Bytes}

theorem bind (hx : Stops e n x) (f : Unit → Writing Unit) : Stops e n (x >>= f) := by
  intro s hf hd hn
  obtain ⟨s', h'⟩ := hx s hf hd hn
  exact ⟨s', bind_eq_error.2 (Or.inl h')⟩

/-- What comes before it is written. -/
theorem after (hx : Spells e n x bs) (hy : Stops e n y) : Stops e n (x >>= fun _ => y) := by
  intro s hf hd hn
  rw [bind_of_ok (hx s hf hd.le hn)]
  exact hy { s with out := s.out.append bs } hf hd hn

theorem congr (hx : Stops e n x) (h : ∀ s, s.scope.frames = .empty → y s = x s) :
    Stops e n y := by
  intro s hf hd hn
  rw [h s hf]
  exact hx s hf hd hn

theorem declaring_unknown (hx : Stops e n x) : Stops e n (declaring .unknown x) := by
  intro s hf hd hn
  obtain ⟨s', h'⟩ := hx (inScope (·.pushed .unknown) s)
    (by rw [← hf]; exact congrArg Scope.frames (Scope.pushed_of_args_eq_nil rfl)) hd hn
  refine ⟨inScope (·.lowered s.scope.frames.height) s', ?_⟩
  rw [declaring_apply]
  unfold leaving
  rw [h']
  rfl

theorem tooDeep (e : Engine) : Stops e 0 (tooDeep e.config.maxDepth) := by
  intro s _ hd _
  have hd : s.scope.depth = e.config.maxDepth := hd
  refine ⟨s, ?_⟩
  show EStateM.Result.error (Error.depthExceeded e.config.maxDepth (s.scope.depth + 1)) s = _
  rw [hd]
  rfl

theorem descend (hx : Stops e n x) : Stops e (n + 1) (descend e.config.maxDepth x) := by
  intro s hf hd hn
  obtain ⟨s', h'⟩ := hx (inScope Scope.deeper s) hf
    (show s.scope.depth + 1 + n = e.config.maxDepth by omega) hn
  have hlimit : ¬e.config.maxDepth < (Scoped.scope s).depth + 1 := by
    show ¬e.config.maxDepth < s.scope.depth + 1
    omega
  refine ⟨inScope Scope.shallower s', ?_⟩
  rw [descend_apply, if_neg hlimit]
  unfold leaving
  rw [h']

end Writing.Stops

section
variable {e : Engine} {h : Heap} {wn : ObjId → Serializer → Writing Unit} {n : Nat} {o : ObjId}
  {v : Value} {object : ObjId → Bytes}

/-- Whether the serializer of its class runs into the limit on an object. -/
def Writing.StopsObject (e : Engine) (h : Heap) (n : Nat)
    (wn : ObjId → Serializer → Writing Unit) (o : ObjId) : Prop :=
  ∃ c ser, e.registry.Gives c ser ∧ c.type = h.typeOf o ∧ Writing.Stops e n (wn o ser)

/-- Whether an object is written iff it is not too high. -/
def Writing.HeedsObject (e : Engine) (h : Heap) (n : Nat)
    (wn : ObjId → Serializer → Writing Unit) (object : ObjId → Bytes) (o : ObjId) : Prop :=
  (h.HeightLe n (some o) → SpellsObject e h n wn object o) ∧
    (¬h.HeightLe n (some o) → StopsObject e h n wn o)

/-- A value is too high for the limit if its object is. -/
theorem Writing.stops_anyVia (he : e.registry.Sound) (htr : e.config.trackRef = false)
    (hv : ∀ o, v = some o → HeedsObject e h n wn object o) (hn : ¬h.HeightLe n v) :
    Stops e n (anyVia e h wn v) := by
  cases v with
  | none => exact absurd Heap.heightLe_none hn
  | some o =>
    obtain ⟨c, ser, hc, ht, hstop⟩ := (hv o rfl).2 hn
    simp only [anyVia, ← ht, hc.classOfObject, he.serializer_eq_ok hc, attempt_ok, pure_bind,
      e.tracks_of_untracked htr c]
    exact .after (.count (c.id + 1)) hstop

/-- **Entries stop at the first side that is too high**; the sides before it are written. -/
theorem Writing.stops_entriesVia (he : e.registry.Sound) (htr : e.config.trackRef = false)
    (l : List Entry) (hl : ∀ x ∈ l, ∀ o, x.1 = some o ∨ x.2 = some o →
      HeedsObject e h n wn object o)
    (hn : ¬∀ x ∈ l, h.HeightLe n x.1 ∧ h.HeightLe n x.2) :
    Stops e n (entriesVia e h wn ⟨none, true, .key⟩ ⟨none, true, .value⟩ .unknown l) := by
  induction l with
  | nil => exact absurd (by simp) hn
  | cons x l ih =>
    obtain ⟨k, x⟩ := x
    obtain ⟨hkx, hl⟩ := List.forall_mem_cons.1 hl
    have hkey := fun o ho => hkx o (Or.inl ho)
    have hvalue := fun o ho => hkx o (Or.inr ho)
    have hspells : ∀ {v}, (∀ o, v = some o → HeedsObject e h n wn object o) → h.HeightLe n v →
        Spells e n (anyVia e h wn v) (e.valueBytesVia h object v) := fun hv hn =>
      spells_anyVia he htr fun o ho => (hv o ho).1 (ho ▸ hn)
    have hcheck : ∀ side (v : Value), Slot.check ⟨none, true, side⟩ v = .ok () := by
      intro side v
      simp [Slot.check, ensure]
    simp only [entriesVia, hcheck, attempt_ok, pure_bind]
    by_cases hkn : h.HeightLe n k
    · refine .after (hspells hkey hkn).declaring_unknown ?_
      by_cases hxn : h.HeightLe n x
      · refine .after (hspells hvalue hxn) (ih hl fun hall => hn ?_)
        exact List.forall_mem_cons.2 ⟨⟨hkn, hxn⟩, hall⟩
      · exact (stops_anyVia he htr hvalue hxn).bind _
    · exact (stops_anyVia he htr hkey hkn).declaring_unknown.bind _

/-- A plain container stops where its entries do. -/
theorem Writing.stops_mapVia (he : e.registry.Sound) (htr : e.config.trackRef = false)
    {ct : Container} (hct : h.node o = .container ct)
    (hl : ∀ x ∈ (h.node o).parts, ∀ p, x = some p → HeedsObject e h n wn object p)
    (hn : ¬h.HeightLe (n + 1) (some o)) : Stops e n (mapVia e h wn {} {} o) := by
  have hsides : ∀ x ∈ ct.entries, ∀ p, x.1 = some p ∨ x.2 = some p →
      HeedsObject e h n wn object p := by
    rintro x hx p (hp | hp)
    · exact hl _ (Heap.fst_mem_parts hct hx) p hp
    · exact hl _ (Heap.snd_mem_parts hct hx) p hp
  have hentries := stops_entriesVia he htr ct.entries hsides fun hall => hn fun x hx => by
    obtain ⟨y, hy, rfl | rfl⟩ := (Heap.mem_parts_container hct).1 hx
    · exact (hall y hy).1
    · exact (hall y hy).2
  have hcon : h.container? o = some ct := by simp [Heap.container?, hct]
  unfold mapVia
  simp only [hcon]
  refine .after (.count _) ((hentries.bind fun _ => modify popFrame).congr fun s hf => ?_)
  have hargs : (declaredArgs s).getD [] = [] := Scope.args_of_empty hf
  rw [get_bind, get_bind, hargs, hf, resolveSlots_plain, attempt_ok, pure_bind]

/-- **What is known is written iff it is no higher than there are levels left**, and runs into
    the limit if it is. -/
theorem Writing.heeds_data (he : e.registry.Sound) (htr : e.config.trackRef = false)
    (hu : e.Unbound) (hk : ∀ p, h.Leads (some o) p → e.registry.Knows (h.typeOf p)) :
    HeedsObject e h n (data e h n) (e.objectBytes h n) o := by
  refine ⟨fun hv => spells_data he htr hu hv hk, fun hn => ?_⟩
  obtain ⟨c, ser, hc, ht⟩ := hk o .self
  refine ⟨c, ser, hc, ht, ?_⟩
  induction n generalizing o c ser with
  | zero => exact .tooDeep e
  | succ n ih =>
    refine Stops.descend ?_
    rcases hu.gives he hc with ⟨type, hty, rfl⟩ | ⟨type, hty, rfl⟩
    · obtain ⟨a, ha, -⟩ := Heap.exists_leaf (ht.symm.trans hty)
      exact absurd ((Heap.heightLe_of_leaf ha).mono (by omega)) hn
    · obtain ⟨ct, hct, -⟩ := Heap.exists_container (ht.symm.trans hty)
      have hparts : ∀ x ∈ (h.node o).parts, ∀ p, x = some p →
          HeedsObject e h n (data e h n) (e.objectBytes h n) p := by
        rintro _ hx p rfl
        have hkp : ∀ q, h.Leads (some p) q → e.registry.Knows (h.typeOf q) := fun q hq =>
          hk q (.part hx hq)
        refine ⟨fun hv => spells_data he htr hu hv hkp, fun hnp => ?_⟩
        obtain ⟨c', ser', hc', ht'⟩ := hkp p .self
        exact ⟨c', ser', hc', ht', ih hkp hnp c' ser' hc' ht'⟩
      exact stops_mapVia he htr hct hparts hn

end

/-! ## Readings -/

/-- Whether a reading takes the bytes if a condition holds and runs into the limit if it does
    not, where there are no frames and just so many levels are left. -/
def Reading.Heeds (e : Engine) (n : Nat) (y : Reading α) (bs : Bytes) (P : Prop) : Prop :=
  ∀ r : ReadState, r.input.source = none → r.input.native = e.config.native →
    bs <+: r.input.unread → r.scope.frames = .empty → r.scope.depth + n = e.config.maxDepth →
    (P → ∃ a r', y r = .ok a r' ∧ r'.input = r.input.advance bs.length ∧ r'.scope = r.scope) ∧
      (¬P → ∃ r', y r = .error e.limitError r')

namespace Reading.Heeds

variable {e : Engine} {n : Nat} {y : Reading α} {bs cs : Bytes} {P Q : Prop}

theorem of_iff (hy : Heeds e n y bs P) (h : P ↔ Q) : Heeds e n y bs Q := propext h ▸ hy

/-- A step that takes nothing. -/
theorem silent (hy : ∀ r : ReadState, r.scope.frames = .empty →
    ∃ a r', y r = .ok a r' ∧ r'.input = r.input ∧ r'.scope = r.scope) : Heeds e n y [] True :=
  fun r _ _ _ hfr _ => ⟨fun _ => hy r hfr, fun h => absurd trivial h⟩

protected theorem pure (a : α) : Heeds e n (pure a) [] True :=
  .silent fun r _ => ⟨a, r, rfl, rfl, rfl⟩

theorem bind {f : α → Reading β} (hy : Heeds e n y bs P) (hf : ∀ a, Heeds e n (f a) cs Q) :
    Heeds e n (y >>= f) (bs ++ cs) (P ∧ Q) := by
  intro r hs hl hp hfr hd
  obtain ⟨hok, hstop⟩ := hy r hs hl ((List.prefix_append _ _).trans hp) hfr hd
  by_cases hP : P
  · obtain ⟨a, r₁, h₁, hi, hsc⟩ := hok hP
    obtain ⟨hok', hstop'⟩ := hf a r₁ (hi ▸ hs) (hi ▸ hl) (hi ▸ Input.prefix_advance hp)
      (hsc ▸ hfr) (hsc ▸ hd)
    rw [bind_of_ok h₁]
    refine ⟨fun h => ?_, fun h => hstop' fun hQ => h ⟨hP, hQ⟩⟩
    obtain ⟨b, r', h', hi', hsc'⟩ := hok' h.2
    exact ⟨b, r', h', by rw [hi', hi, Input.advance_advance, List.length_append], hsc'.trans hsc⟩
  · refine ⟨fun h => absurd h.1 hP, fun _ => ?_⟩
    obtain ⟨r', h'⟩ := hstop hP
    exact ⟨r', bind_eq_error.2 (Or.inl h')⟩

/-- Bytes that are taken before. -/
theorem take {y₀ : Reading α} {a : α} {f : α → Reading β} (hy : Takes e.config.native y₀ bs a)
    (hf : Heeds e n (f a) cs P) : Heeds e n (y₀ >>= f) (bs ++ cs) P := by
  intro r hs hl hp hfr hd
  rw [bind_of_ok (hy r hs hl ((List.prefix_append _ _).trans hp)), List.length_append,
    ← Input.advance_advance]
  exact hf { r with input := r.input.advance bs.length } hs hl (Input.prefix_advance hp) hfr hd

/-- A step before that takes nothing. -/
theorem step {y₀ : Reading α} {f : α → Reading β}
    (hy : ∀ r : ReadState, r.scope.frames = .empty →
      ∃ a r', y₀ r = .ok a r' ∧ r'.input = r.input ∧ r'.scope = r.scope)
    (hf : ∀ a, Heeds e n (f a) bs P) : Heeds e n (y₀ >>= f) bs P :=
  ((silent hy).bind hf).of_iff (and_iff_right trivial)

theorem map (f : α → β) (hy : Heeds e n y bs P) : Heeds e n (f <$> y) bs P := by
  intro r hs hl hp hfr hd
  obtain ⟨hok, hstop⟩ := hy r hs hl hp hfr hd
  refine ⟨fun hP => ?_, fun hP => ?_⟩
  · obtain ⟨a, r', h', hrest⟩ := hok hP
    exact ⟨f a, r', map_of_ok h', hrest⟩
  · obtain ⟨r', h'⟩ := hstop hP
    exact ⟨r', bind_eq_error.2 (Or.inl h')⟩

theorem congr {y' : Reading α} (hy : Heeds e n y bs P)
    (h : ∀ r, r.scope.frames = .empty → y' r = y r) : Heeds e n y' bs P := by
  intro r hs hl hp hfr hd
  rw [h r hfr]
  exact hy r hs hl hp hfr hd

theorem declaring_unknown (hy : Heeds e n y bs P) : Heeds e n (declaring .unknown y) bs P := by
  intro r hs hl hp hfr hd
  have hpushed : r.scope.pushed .unknown = r.scope := Scope.pushed_of_args_eq_nil rfl
  obtain ⟨hok, hstop⟩ := hy (inScope (·.pushed .unknown) r) hs hl hp
    ((congrArg Scope.frames hpushed).trans hfr) hd
  rw [declaring_apply]
  unfold leaving
  refine ⟨fun hP => ?_, fun hP => ?_⟩
  · obtain ⟨a, r', h', hi, hsc⟩ := hok hP
    refine ⟨a, inScope (·.lowered r.scope.frames.height) r', by rw [h']; rfl, hi, ?_⟩
    show r'.scope.lowered r.scope.frames.height = r.scope
    rw [hsc]
    exact Scope.lowered_pushed _ _
  · obtain ⟨r', h'⟩ := hstop hP
    exact ⟨inScope (·.lowered r.scope.frames.height) r', by rw [h']; rfl⟩

theorem tooDeep (e : Engine) : Heeds e 0 (tooDeep e.config.maxDepth : Reading α) bs False := by
  intro r _ _ _ _ hd
  have hd : r.scope.depth = e.config.maxDepth := hd
  refine ⟨False.elim, fun _ => ⟨r, ?_⟩⟩
  show EStateM.Result.error (Error.depthExceeded e.config.maxDepth (r.scope.depth + 1)) r = _
  rw [hd]
  rfl

theorem descend (hy : Heeds e n y bs P) :
    Heeds e (n + 1) (descend e.config.maxDepth y) bs P := by
  intro r hs hl hp hfr hd
  have hlimit : ¬e.config.maxDepth < (Scoped.scope r).depth + 1 := by
    show ¬e.config.maxDepth < r.scope.depth + 1
    omega
  obtain ⟨hok, hstop⟩ := hy (inScope Scope.deeper r) hs hl hp hfr
    (show r.scope.depth + 1 + n = e.config.maxDepth by omega)
  rw [descend_apply, if_neg hlimit]
  unfold leaving
  refine ⟨fun hP => ?_, fun hP => ?_⟩
  · obtain ⟨a, r', h', hi, hsc⟩ := hok hP
    refine ⟨a, inScope Scope.shallower r', by rw [h'], hi, ?_⟩
    show r'.scope.shallower = r.scope
    rw [hsc]
    rfl
  · obtain ⟨r', h'⟩ := hstop hP
    exact ⟨inScope Scope.shallower r', by rw [h']⟩

theorem withNested {x : (ClassInfo → Serializer → Option Nat → Reading ObjId) → Reading α}
    (hx : Heeds e n (x (data e n)) bs P) : Heeds e n (withNested e x) bs P := by
  intro r hs hl hp hfr hd
  have hlevels : e.config.maxDepth - r.scope.depth = n := by omega
  unfold Reading.withNested
  rw [hlevels]
  exact hx r hs hl hp hfr hd

theorem completing {y : Reading ObjId} (hy : Heeds e n y bs P) :
    Heeds e n (completing y) bs P := by
  intro r hs hl hp hfr hd
  obtain ⟨hok, hstop⟩ := hy r hs hl hp hfr hd
  rw [completing_apply]
  refine ⟨fun hP => ?_, fun hP => ?_⟩
  · obtain ⟨o, r', h', hi, hsc⟩ := hok hP
    rw [h']
    exact ⟨o, _, rfl, by split <;> exact hi, by split <;> exact hsc⟩
  · obtain ⟨r', h'⟩ := hstop hP
    exact ⟨r', by rw [h']⟩

end Reading.Heeds

section
variable {e : Engine} {h : Heap} {n m : Nat} {o : ObjId} {c : ClassInfo} {ser : Serializer}
  {v : Value} {object : ObjId → Bytes}
  {nested : ClassInfo → Serializer → Option Nat → Reading ObjId}

/-- Whether the bytes of an object are read iff it is not too high, by the serializer of its
    class. -/
def Reading.HeedsObject (e : Engine) (h : Heap) (n : Nat)
    (nested : ClassInfo → Serializer → Option Nat → Reading ObjId) (object : ObjId → Bytes)
    (o : ObjId) : Prop :=
  ∃ c ser, e.registry.Gives c ser ∧ c.type = h.typeOf o ∧
    Reading.Heeds e n (nested c ser none) (object o) (h.HeightLe n (some o))

/-- **The bytes of a value are read iff it is not too high.** -/
theorem Reading.heeds_anyVia (he : e.registry.Sound) (htr : e.config.trackRef = false)
    (hv : ∀ o, v = some o → HeedsObject e h n nested object o) :
    Heeds e n (anyVia e nested) (e.valueBytesVia h object v) (h.HeightLe n v) := by
  unfold anyVia
  cases v with
  | none =>
    have hnull := (Heeds.pure (e := e) (n := n) (none : Value)).of_iff
      (iff_of_true trivial (Heap.heightLe_none (h := h) (n := n)))
    rw [← List.append_nil (e.valueBytesVia h object none)]
    exact .take (takes_count (by decide)) hnull
  | some o =>
    obtain ⟨c, ser, hc, ht, hn⟩ := hv o rfl
    obtain ⟨-, -, hid, hlt⟩ := he.gives_of_object hc.classOfObject (he.serializer_eq_ok hc)
    simp only [Engine.valueBytesVia, ← ht, hc.idOf]
    refine .take (takes_count hlt) ?_
    rw [if_neg (Nat.succ_ne_zero _), Nat.add_sub_cancel, hid, attempt_ok, pure_bind,
      he.serializer_eq_ok hc, attempt_ok, pure_bind,
      objectVia_of_not_tracks _ (e.tracks_of_untracked htr c)]
    exact hn.map some

/-- **The bytes of entries are read iff no side of them is too high.** -/
theorem Reading.heeds_entriesVia (he : e.registry.Sound) (htr : e.config.trackRef = false)
    (p : ObjId) (l : List Entry) (hl : ∀ x ∈ l, ∀ o, x.1 = some o ∨ x.2 = some o →
      HeedsObject e h n nested object o) :
    Heeds e n (entriesVia e nested ⟨none, true, .key⟩ ⟨none, true, .value⟩ .unknown p l.length)
      ((l.flatMap fun (k, v) => [k, v]).flatMap (e.valueBytesVia h object))
      (∀ x ∈ l, h.HeightLe n x.1 ∧ h.HeightLe n x.2) := by
  induction l with
  | nil => exact (Heeds.pure ()).of_iff (by simp)
  | cons x l ih =>
    obtain ⟨k, x⟩ := x
    obtain ⟨hkx, hl⟩ := List.forall_mem_cons.1 hl
    have hkey : Heeds e n (anyVia e nested) (e.valueBytesVia h object k) (h.HeightLe n k) :=
      heeds_anyVia he htr fun o ho => hkx o (Or.inl ho)
    have hvalue : Heeds e n (anyVia e nested) (e.valueBytesVia h object x) (h.HeightLe n x) :=
      heeds_anyVia he htr fun o ho => hkx o (Or.inr ho)
    simp only [List.flatMap_cons, List.cons_append, List.nil_append, List.length_cons, entriesVia]
    refine Heeds.of_iff (hkey.declaring_unknown.bind fun k' => hvalue.bind fun x' =>
      .step (fun r _ => ⟨(), _, rfl, rfl, rfl⟩) fun _ => ih hl) ?_
    rw [List.forall_mem_cons, and_assoc]

/-- The bytes of a plain container are read iff no part of it is too high. -/
theorem Reading.heeds_mapVia (he : e.registry.Sound) (htr : e.config.trackRef = false)
    {ct : Container} (hct : h.node o = .container ct) (hn32 : ct.entries.length < 2 ^ 32)
    {type : ContainerType} (hc : c.containerType none = .ok type)
    (hl : ∀ x ∈ (h.node o).parts, ∀ p, x = some p → HeedsObject e h n nested object p) :
    Heeds e n (mapVia e nested c {} {} none) (countBytes e.config.native ct.entries.length ++
      (h.node o).parts.flatMap (e.valueBytesVia h object)) (h.HeightLe (n + 1) (some o)) := by
  have hentries : ∀ p, Heeds e n
      (entriesVia e nested ⟨none, true, .key⟩ ⟨none, true, .value⟩ .unknown p ct.entries.length)
      ((h.node o).parts.flatMap (e.valueBytesVia h object)) (h.HeightLe (n + 1) (some o)) := by
    intro p
    rw [hct]
    refine (heeds_entriesVia he htr p ct.entries fun x hx q hq => ?_).of_iff
      ⟨fun hall x hx => ?_, fun hall x hx => ?_⟩
    · rcases hq with hq | hq
      · exact hl _ (Heap.fst_mem_parts hct hx) q hq
      · exact hl _ (Heap.snd_mem_parts hct hx) q hq
    · obtain ⟨y, hy, rfl | rfl⟩ := (Heap.mem_parts_container hct).1 hx
      · exact (hall y hy).1
      · exact (hall y hy).2
    · exact ⟨hall _ (Heap.fst_mem_parts hct hx), hall _ (Heap.snd_mem_parts hct hx)⟩
  have hend : ∀ p : ObjId, Heeds e n (modify popFrame >>= fun _ => pure p) [] True := fun p =>
    .silent fun r hf => ⟨p, inScope Scope.popped r, rfl, rfl, Scope.popped_of_empty hf⟩
  unfold mapVia newContainer
  rw [hc, attempt_ok, pure_bind]
  refine .step (fun r _ => ⟨_, _, rfl, rfl, rfl⟩) fun p => .take (takes_count hn32) ?_
  refine Heeds.congr (y := bindObject p >>= fun _ => entriesVia e nested ⟨none, true, .key⟩
    ⟨none, true, .value⟩ .unknown p ct.entries.length >>= fun _ => modify popFrame >>= fun _ =>
      pure p) (.step (fun r _ => ⟨(), _, rfl, rfl, rfl⟩) fun _ => ?_) fun r hf => ?_
  · have hbody := (hentries p).bind fun _ => hend p
    rw [List.append_nil] at hbody
    exact hbody.of_iff (and_iff_left trivial)
  · have hargs : (declaredArgs r).getD [] = [] := Scope.args_of_empty hf
    rw [get_bind, get_bind, hargs, hf, resolveSlots_plain, attempt_ok, pure_bind]

/-- **The bytes of what is known are read iff it is no higher than there are levels left**,
    however many levels were left when it was written. -/
theorem Reading.heeds_data (he : e.registry.Sound) (htr : e.config.trackRef = false)
    (hu : e.Unbound) (hv : h.HeightLe m (some o)) (hs : h.Small (some o))
    (hk : ∀ p, h.Leads (some o) p → e.registry.Knows (h.typeOf p)) :
    HeedsObject e h n (data e n) (e.objectBytes h m) o := by
  obtain ⟨c, ser, hc, ht⟩ := hk o .self
  refine ⟨c, ser, hc, ht, ?_⟩
  induction n generalizing o c ser m with
  | zero => exact (Heeds.tooDeep e).of_iff ⟨False.elim, id⟩
  | succ n ih =>
    obtain ⟨m, rfl⟩ := hv.pos
    refine Heeds.descend (.step (fun r _ => ⟨(), _, rfl, rfl, rfl⟩) fun _ => .completing ?_)
    have hsmall := hs o .self
    rcases hu.gives he hc with ⟨type, hty, rfl⟩ | ⟨type, hty, rfl⟩
    · obtain ⟨a, ha, rfl⟩ := Heap.exists_leaf (ht.symm.trans hty)
      rw [ha] at hsmall
      have hlow : h.HeightLe (n + 1) (some o) := (Heap.heightLe_of_leaf ha).mono (by omega)
      have hread : Heeds e n (do newObject (.leaf (← scan (leaf a.type))))
          (a.toItem.encode e.config.native ++ []) True :=
        .take (takes_scan (reads_leaf a hsmall)) (.silent fun r _ => ⟨_, _, rfl, rfl, rfl⟩)
      rw [List.append_nil] at hread
      simp only [Engine.objectBytes, ha]
      exact hread.of_iff (iff_of_true trivial hlow)
    · obtain ⟨ct, hct, -⟩ := Heap.exists_container (ht.symm.trans hty)
      rw [hct] at hsmall
      rw [Engine.objectBytes_container hct]
      refine heeds_mapVia he htr hct hsmall (he.containerType_eq_ok hc hty) fun x hx p hp => ?_
      subst hp
      have hkp : ∀ q, h.Leads (some p) q → e.registry.Knows (h.typeOf q) := fun q hq =>
        hk q (.part hx hq)
      obtain ⟨c', ser', hc', ht'⟩ := hkp p .self
      exact ⟨c', ser', hc', ht', ih (hv.part hx) (hs.part hx) hkp c' ser' hc' ht'⟩

end

namespace Engine

variable {e : Engine} {h : Heap} {v : Value} {o : ObjId} {n m : Nat}

/-! ## Streams -/

/-- The bytes of a value do not depend on the limit. -/
theorem valueBytes_limited (m : Nat) (h : Heap) (n : Nat) (v : Value) :
    (e.limited m).valueBytes h n v = e.valueBytes h n v := by
  induction n generalizing v with
  | zero => rfl
  | succ n ih =>
    cases v with
    | none => rfl
    | some o =>
      have hparts := List.flatMap_congr fun (x : Value) (_ : x ∈ (h.node o).parts) => ih x
      simp only [valueBytes] at hparts
      simp only [valueBytes, valueBytesVia, objectBytes, hparts]
      rfl

/-- A value that is too high is not serialized. -/
theorem serialize_eq_error (he : e.registry.Sound) (htr : e.config.trackRef = false)
    (hu : e.Unbound) (hv : ¬h.HeightLe e.config.maxDepth v)
    (hk : ∀ p, h.Leads v p → e.registry.Knows (h.typeOf p)) :
    e.serialize h v = .error e.limitError := by
  cases v with
  | none => exact absurd Heap.heightLe_none hv
  | some o =>
    have hheeds := Writing.heeds_data (n := e.config.maxDepth) he htr hu hk
    obtain ⟨s', h'⟩ := Writing.stops_anyVia he htr (by rintro _ ⟨⟩; exact hheeds) hv
      (.start (e.writeHeader false (.empty e.config.native))) rfl
      (Nat.zero_add _) rfl
    have hany : Writing.any e h (some o) (.start (e.writeHeader false (.empty e.config.native))) =
        .error e.limitError s' := h'
    rw [serialize_eq_written]
    unfold written writeStream
    rw [modify_bind]
    simp only [Option.isSome_some, Option.isNone_some, if_true, writing, hany]

/-- **What stands in a stream is read iff it is no higher than the limit.** -/
theorem heeds_deserialize (he : e.registry.Sound) (htr : e.config.trackRef = false)
    (hu : e.Unbound) (hv : h.HeightLe m (some o)) (hs : h.Small (some o))
    (hk : ∀ p, h.Leads (some o) p → e.registry.Knows (h.typeOf p)) (h₀ : Heap) :
    (h.HeightLe e.config.maxDepth (some o) → ∃ w h',
      e.deserialize h₀ (e.headerByte false :: e.valueBytes h m (some o)) = .ok (w, h')) ∧
    (¬h.HeightLe e.config.maxDepth (some o) →
      e.deserialize h₀ (e.headerByte false :: e.valueBytes h m (some o)) =
        .error e.limitError) := by
  have hdata := Reading.heeds_data (n := e.config.maxDepth) he htr hu hv hs hk
  have hany : Reading.Heeds e e.config.maxDepth (Reading.any e) (e.valueBytes h m (some o))
      (h.HeightLe e.config.maxDepth (some o)) :=
    .withNested (Reading.heeds_anyVia he htr (by rintro _ ⟨⟩; exact hdata))
  generalize e.valueBytes h m (some o) = bs at hany
  have hhead := reads_header (e := e) e.config.native false
    ((Input.ofBytes (e.headerByte false :: bs)).withLayout e.config.native) rfl rfl ⟨bs, rfl⟩
  obtain ⟨hok, hstop⟩ := hany (.start (((Input.ofBytes (e.headerByte false :: bs)).withLayout
    e.config.native).advance 1) h₀) rfl rfl (List.prefix_refl _) rfl (Nat.zero_add _)
  rw [deserialize_eq_readStream]
  unfold resultOf readStream
  rw [bind_of_ok hhead]
  simp only [Bool.false_eq_true, if_false, List.length_singleton, reading]
  refine ⟨fun hn => ?_, fun hn => ?_⟩
  · obtain ⟨w, r', h', -⟩ := hok hn
    exact ⟨w, r'.heap, by rw [h']⟩
  · obtain ⟨r', h'⟩ := hstop hn
    rw [h']

/-- Null is read under any limit. -/
theorem deserialize_null (he : e.registry.Sound) (h₀ : Heap) :
    ∃ w h', e.deserialize h₀ [e.headerByte true] = .ok (w, h') := by
  obtain ⟨w, d, -, hd⟩ := deserialize_of_serialize he (e.serialize_none .empty)
    (fits_of_nodes e (by decide) (by decide) none) h₀
  exact ⟨w, d.heap, hd⟩

/-- What is written under one limit is read iff it is no higher than the other. -/
theorem heeds_of_serialize (he : e.registry.Sound) (htr : e.config.trackRef = false)
    (hu : e.Unbound) (hk : ∀ p, h.Leads v p → e.registry.Knows (h.typeOf p))
    (hv : h.HeightLe m v) :
    ∃ bs, (e.limited m).serialize h v = .ok bs ∧ (h.Small v → ∀ m' h₀,
      (h.HeightLe m' v → ∃ w h', (e.limited m').deserialize h₀ bs = .ok (w, h')) ∧
      (¬h.HeightLe m' v →
        (e.limited m').deserialize h₀ bs = .error (e.limited m').limitError)) := by
  cases v with
  | none =>
    exact ⟨_, (e.limited m).serialize_none h, fun _ m' h₀ =>
      ⟨fun _ => deserialize_null (e := e.limited m') he h₀,
        fun hn => absurd Heap.heightLe_none hn⟩⟩
  | some o =>
    refine ⟨_, serialize_eq_ok (e := e.limited m) he htr hu hv hk, fun hs m' h₀ => ?_⟩
    have hbytes : (e.limited m).valueBytes h m (some o) =
        (e.limited m').valueBytes h m (some o) := by
      rw [valueBytes_limited, valueBytes_limited]
    have hheeds := heeds_deserialize (e := e.limited m') he htr hu hv hs hk h₀
    rw [← hbytes] at hheeds
    exact hheeds

/-- **The limit decides exactly.**  A value is written iff it is no higher than the limit of the
    writer, and what was written is read iff it is no higher than the limit of the reader;
    otherwise they run into it.  What leads into a cycle is higher than any limit. -/
theorem serialize_by_height (he : e.Plain) (htr : e.config.trackRef = false)
    (hk : ∀ o, h.Leads v o → (e.registry.find? (h.typeOf o)).isSome) (m : Nat) :
    ((∃ bs, (e.limited m).serialize h v = .ok bs) ↔ h.HeightLe m v) ∧
    (¬h.HeightLe m v → (e.limited m).serialize h v = .error (.depthExceeded m (m + 1))) ∧
    ((∃ o, h.Leads v o ∧ ∃ x ∈ (h.node o).parts, h.Leads x o) → ¬h.HeightLe m v) ∧
    (h.Small v → ∀ bs, (e.limited m).serialize h v = .ok bs → ∀ m' h₀,
      ((∃ w h', (e.limited m').deserialize h₀ bs = .ok (w, h')) ↔ h.HeightLe m' v) ∧
      (¬h.HeightLe m' v →
        (e.limited m').deserialize h₀ bs = .error (.depthExceeded m' (m' + 1)))) := by
  have hsound := he.assembled.sound
  have hknows := fun o ho => he.knows (hk o ho)
  have hstop : ¬h.HeightLe m v →
      (e.limited m).serialize h v = .error (.depthExceeded m (m + 1)) := fun hv =>
    serialize_eq_error (e := e.limited m) hsound htr he.unbound hv hknows
  have hhigh : ∀ bs, (e.limited m).serialize h v = .ok bs → h.HeightLe m v := by
    intro bs hs
    by_contra hv
    cases hs.symm.trans (hstop hv)
  refine ⟨⟨fun ⟨bs, hs⟩ => hhigh bs hs, fun hv => ?_⟩, hstop, ?_, fun hsmall bs hs m' h₀ => ?_⟩
  · obtain ⟨bs, hs, -⟩ := heeds_of_serialize hsound htr he.unbound hknows hv
    exact ⟨bs, hs⟩
  · rintro ⟨o, hl, x, hx, hxo⟩ hv
    exact (hv.leads hl).not_leads hx hxo
  · obtain ⟨bs', hs', hread⟩ := heeds_of_serialize hsound htr he.unbound hknows (hhigh bs hs)
    cases hs.symm.trans hs'
    obtain ⟨hok, hno⟩ := hread hsmall m' h₀
    refine ⟨⟨fun ⟨w, h', hd⟩ => ?_, hok⟩, hno⟩
    by_contra hv
    cases hd.symm.trans (hno hv)

/-- A container in a container: together with what is in it, it is three objects high. -/
def threeHigh : Heap :=
  ⟨#[.container (.hash ⟨[(some 1, some 2)]⟩), .leaf (.i32 7), .container (.hash ⟨[(none, some 3)]⟩),
    .leaf (.bool true)]⟩

theorem registered_of_nodes {r : Registry} {h : Heap} (hb : (r.find? (.leaf .bool)).isSome)
    (hn : ∀ o < h.size, (r.find? (h.typeOf o)).isSome) (o : ObjId) :
    (r.find? (h.typeOf o)).isSome := by
  by_cases ho : o < h.size
  · exact hn o ho
  · rw [Heap.typeOf, Heap.node_of_size_le (Nat.le_of_not_lt ho)]
    exact hb

theorem serialize_by_height_threeHigh :
    (({} : Engine).limited 3).serialize threeHigh (some 0) = .ok [2, 10, 1, 5, 14, 10, 1, 0, 2, 1] ∧
      (({} : Engine).limited 2).serialize threeHigh (some 0) = .error (.depthExceeded 2 3) ∧
      (({} : Engine).limited 2).deserialize .empty [2, 10, 1, 5, 14, 10, 1, 0, 2, 1] =
        .error (.depthExceeded 2 3) ∧
      ∀ m, (({} : Engine).limited m).serialize loop (some 0) =
        .error (.depthExceeded m (m + 1)) := by
  have hs : (({} : Engine).limited 3).serialize threeHigh (some 0) =
      .ok [2, 10, 1, 5, 14, 10, 1, 0, 2, 1] := by decide +kernel
  have hthree := serialize_by_height (v := some 0) (.start {}) rfl
    fun o _ => registered_of_nodes (h := threeHigh) (by decide) (by decide +kernel) o
  have hloop := serialize_by_height (v := some 0) (.start {}) rfl
    fun o _ => registered_of_nodes (h := loop) (by decide) (by decide +kernel) o
  have hlow : ¬threeHigh.HeightLe 2 (some 0) := fun hv =>
    hv (some 2) (by decide) (some 3) (by decide)
  have hsmall : threeHigh.Small (some 0) := Heap.small_of_nodes (by decide +kernel)
  refine ⟨hs, (hthree 2).2.1 hlow, (((hthree 3).2.2.2 hsmall _ hs 2 .empty).2 hlow), fun m => ?_⟩
  exact (hloop m).2.1 ((hloop m).2.2.1 ⟨0, .self, some 0, by decide, .self⟩)

end Engine

end GraphWire

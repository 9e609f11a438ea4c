/-
  What was read can be written.

  A writer refuses null and objects of other classes where a binding forbids them.
  A guarded engine refuses nothing of the kind in what it has read
  (`Engine.serialize_of_guarded`); it may still refuse to nest so deep.
-/
import GraphWire.Proofs.Contracts

namespace GraphWire

/-- Whether an error refuses null or an object of another class. -/
def Error.Refuses (err : Error) : Prop := err.kind = .nullNotAllowed ∨ err.kind = .typeError

/-- Whether a writing without frames refuses nothing and leaves no frames. -/
def Spares {α : Type} (x : Writing α) : Prop :=
  ∀ s : WriteState, s.scope.frames = .empty →
    (∀ a s', x s = .ok a s' → s'.scope.frames = .empty) ∧
      ∀ err s', x s = .error err s' → ¬err.Refuses

namespace Spares

variable {α β : Type} {x y : Writing α}

theorem pure (a : α) : Spares (Pure.pure a : Writing α) := by
  intro s hs
  refine ⟨?_, ?_⟩
  · rintro _ _ ⟨⟩
    exact hs
  · rintro _ _ ⟨⟩

theorem bind {f : α → Writing β} (hx : Spares x) (hf : ∀ a, Spares (f a)) : Spares (x >>= f) := by
  intro s hs
  obtain ⟨hok, herr⟩ := hx s hs
  constructor
  · intro b s' h
    obtain ⟨a, s₁, h₁, h₂⟩ := bind_eq_ok.1 h
    exact (hf a s₁ (hok a s₁ h₁)).1 b s' h₂
  · intro err s' h
    rcases bind_eq_error.1 h with h | ⟨a, s₁, h₁, h₂⟩
    · exact herr err s' h
    · exact (hf a s₁ (hok a s₁ h₁)).2 err s' h₂

/-- Where there are no frames, another writing may be meant. -/
theorem congr (hx : Spares x) (h : ∀ s, s.scope.frames = .empty → y s = x s) : Spares y := by
  intro s hs
  rw [h s hs]
  exact hx s hs

theorem modify {f : WriteState → WriteState}
    (hf : ∀ s, s.scope.frames = .empty → (f s).scope.frames = .empty) :
    Spares (modify f : Writing Unit) := by
  intro s hs
  refine ⟨?_, ?_⟩
  · rintro _ _ ⟨⟩
    exact hf s hs
  · rintro _ _ ⟨⟩

theorem put (i : Item) : Spares (Writing.put i) := modify fun _ hs => hs

theorem announce (o : ObjId) : Spares (Writing.announce o) := by
  intro s hs
  refine ⟨?_, ?_⟩
  · rintro _ _ ⟨⟩
    exact hs
  · rintro _ _ ⟨⟩

theorem leaving {change : WriteState → WriteState} (hx : Spares x)
    (hc : ∀ s, s.scope.frames = .empty → (change s).scope.frames = .empty) :
    Spares (leaving change x) := by
  intro s hs
  obtain ⟨hok, herr⟩ := hx s hs
  unfold GraphWire.leaving
  cases h : x s with
  | ok a s₁ =>
    refine ⟨?_, ?_⟩
    · rintro _ _ ⟨⟩
      exact hc s₁ (hok a s₁ h)
    · rintro _ _ ⟨⟩
  | error err s₁ =>
    refine ⟨?_, ?_⟩
    · rintro _ _ ⟨⟩
    · rintro _ _ ⟨⟩
      exact herr err s₁ h

theorem tooDeep (limit : Nat) : Spares (tooDeep limit : Writing α) := by
  intro s hs
  refine ⟨?_, ?_⟩
  · rintro _ _ ⟨⟩
  · rintro _ _ ⟨⟩
    simp [Error.Refuses, Error.kind]

theorem descend (hx : Spares x) (limit : Nat) : Spares (descend limit x) := by
  refine bind ?_ fun _ => hx.leaving fun _ hs => hs
  intro s hs
  unfold deeper
  rw [get_bind]
  split
  · exact tooDeep limit s hs
  · refine modify ?_ s hs
    exact fun _ hs => hs

theorem declaring_unknown (hx : Spares x) : Spares (declaring .unknown x) := by
  have hl : ∀ n, Spares (GraphWire.leaving (dropFrames n) x) := by
    refine fun n => hx.leaving fun s hs => ?_
    show Frames.truncate s.scope.frames n = _
    rw [hs, Frames.truncate_empty]
  intro s hs
  unfold declaring
  rw [get_bind, modify_bind]
  exact hl _ _ hs

end Spares

/-! ## One level -/

variable {e : Engine} {h h₀ : Heap} {nested : ObjId → Serializer → Writing Unit} {o : ObjId}
  {v : Value} {c : ClassInfo} {ser : Serializer} {b : SideBinding}

/-- Whether objects that were added and have the class are written. -/
def SparesNested (e : Engine) (h₀ h : Heap) (nested : ObjId → Serializer → Writing Unit) : Prop :=
  ∀ o c ser, e.registry.Gives c ser → h.typeOf o = c.type → Heap.New h₀ h (some o) →
    Spares (nested o ser)

theorem spares_check (ht : h.typeOf o = c.type) : Spares (attempt (h.checkClass o c) : Writing Unit) := by
  have hc : h.checkClass o c = .ok () := by simp [Heap.checkClass, ht, ensure]
  rw [hc]
  exact .pure ()

namespace SparesNested

theorem unlessWritten (hn : Spares (nested o ser)) (tracked : Bool) :
    Spares (Writing.unlessWritten nested tracked o ser) := by
  unfold Writing.unlessWritten
  split
  · refine .bind (.announce o) fun again => ?_
    split
    · exact .pure ()
    · exact hn
  · exact hn

theorem nullable (hn : SparesNested e h₀ h nested) (hc : e.registry.Gives c ser)
    (hv : ∀ o, v = some o → h.typeOf o = c.type) (hnew : Heap.New h₀ h v) :
    Spares (Writing.nullableVia e h nested v c ser) := by
  cases v with
  | none => exact .put _
  | some o =>
    have ho := hn o c ser hc (hv o rfl) hnew
    refine .bind (spares_check (hv o rfl)) fun _ => ?_
    split
    · exact unlessWritten ho true
    · exact .bind (.put _) fun _ => ho

theorem object (hn : SparesNested e h₀ h nested) (hc : e.registry.Gives c ser)
    (ht : h.typeOf o = c.type) (hnew : Heap.New h₀ h (some o)) :
    Spares (Writing.objectVia e h nested (some o) c ser) :=
  .bind (spares_check ht) fun _ => unlessWritten (hn o c ser hc ht hnew) _

theorem any (hn : SparesNested e h₀ h nested) (he : e.registry.Sound)
    (hk : ∀ o, v = some o → e.registry.Knows (h.typeOf o)) (hnew : Heap.New h₀ h v) :
    Spares (Writing.anyVia e h nested v) := by
  cases v with
  | none => exact .put _
  | some o =>
    obtain ⟨c, ser, hc, ht⟩ := hk o rfl
    have hser := he.serializer_eq_ok hc
    unfold Writing.anyVia
    simp only [← ht, hc.classOfObject, attempt_ok, pure_bind, hser]
    exact .bind (.put _) fun _ => unlessWritten (hn o c ser hc ht.symm hnew) _

/-- **What fits a side is written on it.** -/
theorem side (hn : SparesNested e h₀ h nested) (he : e.registry.Sound)
    (hk : ∀ o, v = some o → e.registry.Knows (h.typeOf o))
    {target : Option (ClassInfo × Serializer)} (ht : b.type = target.map (·.1.type))
    (hgives : ∀ c ser, target = some (c, ser) → e.registry.Gives c ser)
    (hfit : Heap.Fits h₀ h b v) (side : Side) :
    Spares (Writing.sideVia e h nested ⟨target, b.nullable, side⟩ v) := by
  obtain ⟨⟨hnull, htype⟩, hnew⟩ := hfit
  cases target with
  | none => exact hn.any he hk hnew
  | some target =>
    obtain ⟨c, ser⟩ := target
    have hc := hgives c ser rfl
    have hv : ∀ o, v = some o → h.typeOf o = c.type := fun o ho => htype o c.type ho ht
    cases hb : b.nullable with
    | true =>
      simp only [Writing.sideVia, if_true]
      exact hn.nullable hc hv hnew
    | false =>
      simp only [Writing.sideVia, Bool.false_eq_true, if_false]
      cases v with
      | none =>
        have := hnull rfl
        rw [hb] at this
        cases this
      | some o => exact hn.object hc (hv o rfl) hnew

end SparesNested

theorem spares_slot (hfit : Heap.Fits h₀ h b v) (target : Option (ClassInfo × Serializer))
    (side : Side) : Spares (attempt (Slot.check ⟨target, b.nullable, side⟩ v) : Writing Unit) := by
  have hc : Slot.check ⟨target, b.nullable, side⟩ v = .ok () := by
    unfold Slot.check ensure
    cases v with
    | none => simp [hfit.1.1 rfl]
    | some o => rfl
  rw [hc]
  exact .pure ()

/-- **Entries that fit are written.** -/
theorem SparesNested.entries (hn : SparesNested e h₀ h nested) (he : e.registry.Sound)
    (hnew : ∀ o, h₀.size ≤ o → o < h.size → e.registry.Knows (h.typeOf o)) {bk bv : SideBinding}
    {key value : Option (ClassInfo × Serializer)}
    (hkt : bk.type = key.map (·.1.type)) (hvt : bv.type = value.map (·.1.type))
    (hk : ∀ c ser, key = some (c, ser) → e.registry.Gives c ser)
    (hv : ∀ c ser, value = some (c, ser) → e.registry.Gives c ser) (l : List Entry)
    (hl : ∀ x ∈ l, Heap.Fits h₀ h bk x.1 ∧ Heap.Fits h₀ h bv x.2) :
    Spares (Writing.entriesVia e h nested ⟨key, bk.nullable, .key⟩ ⟨value, bv.nullable, .value⟩
      .unknown l) := by
  induction l with
  | nil => exact .pure ()
  | cons x l ih =>
    obtain ⟨k, x⟩ := x
    obtain ⟨⟨hfk, hfx⟩, hl⟩ := List.forall_mem_cons.1 hl
    have hknow : ∀ {b : SideBinding} {v : Value}, Heap.Fits h₀ h b v →
        ∀ o, v = some o → e.registry.Knows (h.typeOf o) :=
      fun hf o ho => hnew o (hf.2 o ho).1 (hf.2 o ho).2
    refine .bind (spares_slot hfk key .key) fun _ => .bind (spares_slot hfx value .value) fun _ => ?_
    refine .bind (hn.side he (hknow hfk) hkt hk hfk .key).declaring_unknown fun _ => ?_
    exact .bind (hn.side he (hknow hfx) hvt hv hfx .value) fun _ => ih hl

/-- **Objects that are proper are written**, on all levels. -/
theorem sparesNested_data (he : e.registry.Sound)
    (hp : ∀ o, h₀.size ≤ o → o < h.size → Heap.Proper e.registry h₀ h (h.node o)) (levels : Nat) :
    SparesNested e h₀ h (Writing.data e h levels) := by
  induction levels with
  | zero => exact fun o c ser _ _ _ => .tooDeep _
  | succ levels ih =>
    intro o c ser hc ht hnew
    refine Spares.descend ?_ _
    obtain ⟨-, hnode⟩ := hp o (hnew o rfl).1 (hnew o rfl).2
    cases hc with
    | leaf hreg =>
      rw [Registry.type_of_find? hreg] at ht
      obtain ⟨a, ha, hat⟩ := Heap.exists_leaf ht
      unfold Writing.bodyVia
      simp only [ha, hat, if_true]
      exact .put _
    | @map type reg key value hreg hkt hvt hk hv =>
      rw [Registry.type_of_find? hreg] at ht
      obtain ⟨ct, hct, rfl⟩ := Heap.exists_container ht
      obtain ⟨a, ha⟩ | ⟨_, hct', hall⟩ := hnode
      · cases hct.symm.trans ha
      cases hct.symm.trans hct'
      have hentries := ih.entries he (fun o ho ho' => (hp o ho ho').1) hkt hvt hk hv ct.entries
        (hall reg hreg)
      have hcon : h.container? o = some ct := by simp [Heap.container?, hct]
      unfold Writing.bodyVia Writing.mapVia
      simp only [hcon]
      refine .bind (.put _) fun _ => ?_
      refine Spares.congr (.bind hentries fun _ => Spares.modify (f := popFrame) ?_) fun s hs => ?_
      · intro s hs
        show Frames.pop s.scope.frames _ = _
        rw [hs]
        rfl
      · rw [get_bind, get_bind]
        have hargs : (declaredArgs s).getD [] = [] := Scope.args_of_empty hs
        rw [hargs, hs, resolveSlots_setup, attempt_ok, pure_bind]

/-! ## Streams -/

/-- **What a guarded engine has read, it does not refuse to write** for null or for
    the class of an object. -/
theorem Engine.not_refuses_of_guarded (he : e.registry.Sound) (hg : e.Guarded) {bs : Bytes}
    (hx : e.deserialize h₀ bs = .ok (v, h)) {err : Error} (hs : e.serialize h v = .error err) :
    ¬err.Refuses := by
  obtain ⟨s, hgood, rfl, hnew⟩ := good_of_deserialize he hg hx
  have hknow : ∀ o, v = some o → e.registry.Knows (s.heap.typeOf o) := by
    rintro o rfl
    exact hgood.knows hnew .self
  have hany := (sparesNested_data he hgood.node
    (e.config.maxDepth - (WriteState.start (e.writeHeader v.isNone
      (.empty e.config.native))).scope.depth)).any he hknow hnew
  unfold serialize written at hs
  split at hs
  · cases hs
  next err' out hout =>
  cases hs
  unfold serializeTo at hout
  rw [get_bind] at hout
  have hens : ensure ((Output.empty e.config.native).native == e.config.native) Error.outputLayout
      = .ok () := by simp [ensure, Output.empty]
  rw [hens, attempt_ok, pure_bind] at hout
  unfold writeStream at hout
  rw [modify_bind] at hout
  split at hout
  · unfold writing at hout
    split at hout
    · cases hout
    · next herr =>
      cases hout
      exact (hany _ rfl).2 _ _ herr
  · cases hout

end GraphWire

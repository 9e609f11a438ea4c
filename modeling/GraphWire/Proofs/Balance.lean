/-
  Frames and depth are balanced.

  The frames of a scope are orderly if their tags grow towards the top and stay
  below the depth (`Scope.Orderly`).  In an orderly scope a container that is
  written or read takes at most the one frame that was pushed for it, so that what
  is entered is left again, on success and on failure.

  * `Ends` says how a computation leaves the scope, and which other computation
    does the same there;
  * `Ends.declaring` and `Ends.descend` are the two ways in and out;
  * `Engine.scope_balanced`: what is declared restores the scope, and a container
    takes the frame that was pushed for it.  The arguments declared for it
    (`Frames.next`) are those of that frame and of no other; what parameters among
    them stand for is looked up in the frames below (`Frames.resolve`).
-/
import GraphWire.Engine.Operations
import GraphWire.Proofs.Runs

namespace GraphWire

variable {σ α β : Type}

/-! ## Scopes in order -/

namespace Scope

/-- Whether all frames were pushed at a smaller depth, as they were where something runs. -/
def Entered (sc : Scope) : Prop := ∀ frame ∈ sc.frames.stack, frame.depth < sc.depth

/-- Whether the tags of the frames grow towards the top and are below the depth. -/
structure Orderly (sc : Scope) : Prop where
  growing : sc.frames.stack.Pairwise fun frame below => below.depth < frame.depth
  below : ∀ frame ∈ sc.frames.stack, frame.depth < sc.depth

/-- What is left of a scope by a container that ran one level deeper. -/
def spent (sc : Scope) : Scope := { sc with frames := sc.frames.pop (sc.depth + 1) }

/-- Whether a scope is as it was, or what is left of it by a container. -/
def Spends (sc sc' : Scope) : Prop := sc' = sc ∨ sc' = sc.spent

variable {sc sc' : Scope}

/-- A declaration without arguments has no frame. -/
theorem pushed_of_args_eq_nil {ty : Declared} (h : ty.args = []) : sc.pushed ty = sc := by
  simp [Scope.pushed, Frames.push, Frames.hasFrame, h]

theorem lowered_height (sc : Scope) : sc.lowered sc.frames.height = sc := by
  simp [lowered]

theorem lowered_pushed (sc : Scope) (ty : Declared) :
    (sc.pushed ty).lowered sc.frames.height = sc := by
  simp [lowered, pushed]

namespace Entered

theorem deeper (hs : sc.Entered) : sc.deeper.Entered := fun frame hf =>
  Nat.lt_succ_of_lt (hs frame hf)

/-- A frame is below the depth as soon as something runs under it. -/
theorem pushed_deeper (hs : sc.Entered) (ty : Declared) : (sc.pushed ty).deeper.Entered := by
  unfold Scope.pushed Frames.push
  split
  · exact List.forall_mem_cons.2 ⟨Nat.lt_succ_self _, hs.deeper⟩
  · exact hs.deeper

/-- What runs under no frame of its own finds none. -/
theorem top?_eq_none (hs : sc.Entered) : sc.frames.top? (sc.depth + 1) = none := by
  unfold Frames.top?
  cases hst : sc.frames.stack with
  | nil => rfl
  | cons frame fs =>
    have hne : frame.depth ≠ sc.depth := Nat.ne_of_lt (hs frame (hst ▸ List.mem_cons_self))
    simp [Option.filter, hne]

theorem spent_eq (hs : sc.Entered) : sc.spent = sc := by
  unfold spent Frames.pop
  rw [hs.top?_eq_none]

/-- The frame of a declaration is taken by what runs under it. -/
theorem spent_pushed (hs : sc.Entered) (ty : Declared) : (sc.pushed ty).spent = sc := by
  by_cases hargs : ty.args = []
  · rw [pushed_of_args_eq_nil hargs, hs.spent_eq]
  · simp [spent, Scope.pushed, Frames.push, Frames.hasFrame, hargs, Frames.pop, Frames.top?,
      Option.filter]

/-- What is declared is left again, whether its frame was taken or not. -/
theorem lowered_eq (hs : sc.Entered) {ty : Declared} (h : (sc.pushed ty).Spends sc') :
    sc'.lowered sc.frames.height = sc := by
  rcases h with rfl | rfl
  · exact lowered_pushed sc ty
  · rw [hs.spent_pushed]
    exact lowered_height sc

end Entered

theorem orderly_of_empty (hf : sc.frames = .empty) : sc.Orderly :=
  ⟨by simp [hf, Frames.empty], by simp [hf, Frames.empty]⟩

theorem orderly_start : Scope.start.Orderly := orderly_of_empty rfl

theorem Orderly.entered (hs : sc.Orderly) : sc.Entered := hs.below

theorem Orderly.deeper (hs : sc.Orderly) : sc.deeper.Orderly where
  growing := hs.growing
  below := hs.entered.deeper

/-- A frame is in order as soon as something runs under it. -/
theorem Orderly.pushed_deeper (hs : sc.Orderly) (ty : Declared) :
    (sc.pushed ty).deeper.Orderly where
  growing := by
    unfold Scope.pushed Frames.push
    split
    · exact .cons hs.below hs.growing
    · exact hs.growing
  below := hs.entered.pushed_deeper ty

theorem Orderly.args_deeper (hs : sc.Orderly) : sc.deeper.args = [] := by
  show ((sc.frames.top? (sc.depth + 1)).map Frame.args).getD [] = []
  rw [hs.entered.top?_eq_none]
  rfl

/-- What runs under a declaration finds its arguments and no others. -/
theorem Orderly.args_pushed_deeper (hs : sc.Orderly) (ty : Declared) :
    (sc.pushed ty).deeper.args = ty.args := by
  by_cases hargs : ty.args = []
  · rw [pushed_of_args_eq_nil hargs, hs.args_deeper, hargs]
  · have hf : Frames.hasFrame ty = true := by simp [Frames.hasFrame, hargs]
    have hnext := Frames.next_push (f := sc.frames) sc.depth hf
    show ((sc.frames.push ty sc.depth).next (sc.depth + 1)).getD [] = ty.args
    rw [hnext]
    rfl

theorem Spends.refl (sc : Scope) : sc.Spends sc := Or.inl rfl

theorem Orderly.spent_eq (hs : sc.Orderly) : sc.spent = sc := hs.entered.spent_eq

/-- In a scope in order there is nothing to take but what is pushed there. -/
theorem Orderly.eq_of_spends (hs : sc.Orderly) (h : sc.Spends sc') : sc' = sc := by
  rcases h with rfl | rfl
  · rfl
  · exact hs.spent_eq

theorem Orderly.spent_pushed (hs : sc.Orderly) (ty : Declared) : (sc.pushed ty).spent = sc :=
  hs.entered.spent_pushed ty

/-- The declared type of the keys of what runs here. -/
def keyType (sc : Scope) : Declared := sc.args[0]?.getD .unknown

end Scope

/-! ## How scopes are left -/

/-- Scopes that are set are there. -/
class LawfulScoped (σ : Type) [Scoped σ] : Prop where
  scope_setScope : ∀ (s : σ) (sc : Scope), Scoped.scope (Scoped.setScope s sc) = sc

instance : LawfulScoped WriteState := ⟨fun _ _ => rfl⟩

instance : LawfulScoped ReadState := ⟨fun _ _ => rfl⟩

section
variable [Scoped σ]

@[simp] theorem scope_inScope [LawfulScoped σ] (change : Scope → Scope) (s : σ) :
    Scoped.scope (inScope change s) = change (Scoped.scope s) :=
  LawfulScoped.scope_setScope s _

/-- Whether a run ends in a scope that passes the test if it succeeds, and in the
    given one if it fails. -/
def Leaves (sc : Scope) (post : Scope → Prop) : EStateM.Result Error σ α → Prop
  | .ok _ s => post (Scoped.scope s)
  | .error _ s => Scoped.scope s = sc

/-- Whether a computation that starts in a scope leaves it so, and whether the
    other one does there what it does. -/
def Ends (sc : Scope) (post : Scope → Prop) (x y : EStateM Error σ α) : Prop :=
  ∀ s, Scoped.scope s = sc → y s = x s ∧ Leaves sc post (x s)

/-- Whether a computation that starts in a scope leaves it as it is. -/
abbrev Keeps (sc : Scope) (x y : EStateM Error σ α) : Prop := Ends sc (· = sc) x y

variable {sc : Scope} {post : Scope → Prop} {x y : EStateM Error σ α}

theorem Leaves.mono {post' : Scope → Prop} {r : EStateM.Result Error σ α}
    (hr : Leaves sc post r) (h : ∀ sc', post sc' → post' sc') : Leaves sc post' r := by
  cases r with
  | ok a s => exact h _ hr
  | error e s => exact hr

namespace Ends

theorem mono {post' : Scope → Prop} (hx : Ends sc post x y) (h : ∀ sc', post sc' → post' sc') :
    Ends sc post' x y := fun s hs => ⟨(hx s hs).1, (hx s hs).2.mono h⟩

/-- What does the same as a computation in the scope can stand for it there. -/
theorem congr (hx : Ends sc post x x) (h : ∀ s, Scoped.scope s = sc → y s = x s) :
    Ends sc post x y := fun s hs => ⟨h s hs, (hx s hs).2⟩

/-- What may take the frame pushed for it finds none in a scope in order. -/
theorem keeps (hs : sc.Orderly) (hx : Ends sc sc.Spends x y) : Keeps sc x y :=
  hx.mono fun _ => hs.eq_of_spends

protected theorem pure (a : α) (h : post sc) :
    Ends sc post (pure a : EStateM Error σ α) (pure a) := by
  intro s hs
  exact ⟨rfl, hs.symm ▸ h⟩

protected theorem throw (e : Error) :
    Ends sc post (throw e : EStateM Error σ α) (throw e) := fun _ hs => ⟨rfl, hs⟩

protected theorem attempt (r : Except Error α) (h : post sc) :
    Ends sc post (attempt r : EStateM Error σ α) (attempt r) := by
  cases r with
  | ok a => exact Ends.pure a h
  | error e => exact Ends.throw e

/-- What changes the scope last changes it as it is. -/
protected theorem modify {f : σ → σ} (hf : ∀ s, Scoped.scope s = sc → post (Scoped.scope (f s))) :
    Ends sc post (modify f : EStateM Error σ PUnit) (modify f) := fun s hs => ⟨rfl, hf s hs⟩

protected theorem bind {f g : α → EStateM Error σ β} (hx : Keeps sc x y)
    (hf : ∀ a, Ends sc post (f a) (g a)) : Ends sc post (x >>= f) (y >>= g) := by
  intro s hs
  obtain ⟨hxy, hr⟩ := hx s hs
  show EStateM.bind y g s = EStateM.bind x f s ∧ Leaves sc post (EStateM.bind x f s)
  unfold EStateM.bind
  rw [hxy]
  cases hxs : x s with
  | ok a s₁ =>
    rw [hxs] at hr
    exact hf a s₁ hr
  | error e s₁ =>
    rw [hxs] at hr
    exact ⟨rfl, hr⟩

/-- What changes the result last leaves the scope alone. -/
protected theorem bind_pure (hx : Ends sc post x y) (f : α → β) :
    Ends sc post (x >>= fun a => pure (f a)) (y >>= fun a => pure (f a)) := by
  intro s hs
  obtain ⟨hxy, hr⟩ := hx s hs
  show EStateM.bind y _ s = EStateM.bind x _ s ∧ Leaves sc post (EStateM.bind x _ s)
  unfold EStateM.bind
  rw [hxy]
  cases hxs : x s with
  | ok a s₁ =>
    rw [hxs] at hr
    exact ⟨rfl, hr⟩
  | error e s₁ =>
    rw [hxs] at hr
    exact ⟨rfl, hr⟩

protected theorem map (hx : Ends sc post x y) (f : α → β) : Ends sc post (f <$> x) (f <$> y) := by
  rw [map_eq_pure_bind, map_eq_pure_bind]
  exact hx.bind_pure f

protected theorem get_bind {f g : σ → EStateM Error σ β}
    (hf : ∀ s, Scoped.scope s = sc → Ends sc post (f s) (g s)) :
    Ends sc post (get >>= f) (get >>= g) := fun s hs => hf s hs s hs

/-- What goes on with the result of an attempt may count on it. -/
protected theorem attempt_bind {r : Except Error α} {f g : α → EStateM Error σ β}
    (hf : ∀ a, r = .ok a → Ends sc post (f a) (g a)) :
    Ends sc post (attempt r >>= f) (attempt r >>= g) := by
  cases r with
  | ok a => exact hf a rfl
  | error e => exact Ends.throw e

variable [LawfulScoped σ]

/-- **What is declared restores the scope**, where what runs under the declaration
    takes its frame or leaves it. -/
protected theorem declaring (hs : sc.Orderly) {ty : Declared}
    (hx : Ends (sc.pushed ty) (sc.pushed ty).Spends x y) :
    Keeps sc (declaring ty x) (declaring ty y) := by
  intro s hsc
  subst hsc
  obtain ⟨hxy, hr⟩ := hx (inScope (·.pushed ty) s) (scope_inScope _ s)
  rw [declaring_apply, declaring_apply]
  unfold leaving
  rw [hxy]
  refine ⟨rfl, ?_⟩
  cases hxs : x (inScope (·.pushed ty) s) with
  | ok a s₁ =>
    rw [hxs] at hr
    exact (scope_inScope _ s₁).trans (hs.entered.lowered_eq hr)
  | error e s₁ =>
    rw [hxs] at hr
    refine (scope_inScope _ s₁).trans ?_
    rw [hr]
    exact Scope.lowered_pushed _ ty

/-- What runs one level deeper and pops there takes the frame pushed for it. -/
protected theorem descend {limit : Nat}
    (hx : Ends sc.deeper (fun sc' => sc' = sc.deeper ∨ sc' = sc.deeper.popped) x y) :
    Ends sc sc.Spends (descend limit x) (descend limit y) := by
  intro s hsc
  subst hsc
  obtain ⟨hxy, hr⟩ := hx (inScope Scope.deeper s) (scope_inScope _ s)
  rw [descend_apply, descend_apply]
  by_cases hlimit : limit < (Scoped.scope s).depth + 1
  · rw [if_pos hlimit, if_pos hlimit]
    exact ⟨rfl, rfl⟩
  · rw [if_neg hlimit, if_neg hlimit]
    unfold leaving
    rw [hxy]
    refine ⟨rfl, ?_⟩
    cases hxs : x (inScope Scope.deeper s) with
    | ok a s₁ =>
      rw [hxs] at hr
      rcases hr with hdeeper | hpopped
      · exact Or.inl ((scope_inScope _ s₁).trans (congrArg Scope.shallower hdeeper))
      · exact Or.inr ((scope_inScope _ s₁).trans (congrArg Scope.shallower hpopped))
    | error e s₁ =>
      rw [hxs] at hr
      exact (scope_inScope _ s₁).trans (congrArg Scope.shallower hr)

end Ends

end

/-! ## Writing -/

namespace Writing

variable {e : Engine} {h : Heap} {sc : Scope} {post : Scope → Prop}

theorem ends_put (i : Item) : Keeps sc (put i) (put i) := .modify fun _ hs => hs

theorem ends_announce (o : ObjId) : Keeps sc (announce o) (announce o) := fun _ hs => ⟨rfl, hs⟩

/-- Whether two ways of writing nested objects agree in a scope, and take from it
    the frame that was pushed for them at most. -/
def NestedEnds (sc : Scope) (nested nested' : ObjId → Serializer → Writing Unit) : Prop :=
  ∀ o ser, Ends sc sc.Spends (nested o ser) (nested' o ser)

variable {nested nested' : ObjId → Serializer → Writing Unit}

section
variable (hn : NestedEnds sc nested nested')
include hn

theorem ends_unlessWritten (tracked : Bool) (o : ObjId) (ser : Serializer) :
    Ends sc sc.Spends (unlessWritten nested tracked o ser)
      (unlessWritten nested' tracked o ser) := by
  cases tracked with
  | false => exact hn o ser
  | true =>
    refine (ends_announce o).bind fun again => ?_
    cases again with
    | false => exact hn o ser
    | true => exact .pure _ (.refl sc)

theorem ends_nullableVia (v : Value) (c : ClassInfo) (ser : Serializer) :
    Ends sc sc.Spends (nullableVia e h nested v c ser) (nullableVia e h nested' v c ser) := by
  cases v with
  | none => exact (ends_put _).mono fun _ => Or.inl
  | some o =>
    refine .bind (.attempt _ rfl) fun _ => ?_
    split
    · exact ends_unlessWritten hn true o ser
    · exact (ends_put _).bind fun _ => hn o ser

theorem ends_objectVia (v : Value) (c : ClassInfo) (ser : Serializer) :
    Ends sc sc.Spends (objectVia e h nested v c ser) (objectVia e h nested' v c ser) := by
  cases v with
  | none => exact .throw _
  | some o => exact .bind (.attempt _ rfl) fun _ => ends_unlessWritten hn _ o ser

theorem ends_anyVia (v : Value) :
    Ends sc sc.Spends (anyVia e h nested v) (anyVia e h nested' v) := by
  cases v with
  | none => exact (ends_put _).mono fun _ => Or.inl
  | some o =>
    refine .bind (.attempt _ rfl) fun c => .bind (.attempt _ rfl) fun ser => ?_
    exact (ends_put _).bind fun _ => ends_unlessWritten hn _ o ser

theorem ends_sideVia (slot : Slot) (v : Value) :
    Ends sc sc.Spends (sideVia e h nested slot v) (sideVia e h nested' slot v) := by
  unfold sideVia
  split
  · split
    · exact ends_nullableVia hn v _ _
    · exact ends_objectVia hn v _ _
  · exact ends_anyVia hn v

end

variable (hs : sc.Orderly)
include hs

/-- **What is declared restores the scope**, and runs nested writings under the
    frame of the declaration. -/
theorem ends_declaredVia {ty : Declared} (v : Value)
    (hn : NestedEnds (sc.pushed ty) nested nested') :
    Keeps sc (declaredVia e h nested ty v) (declaredVia e h nested' ty v) := by
  refine .declaring hs ?_
  split
  · refine .bind (.attempt _ rfl) fun c => .bind (.attempt _ rfl) fun ser => ?_
    exact ends_nullableVia hn v c ser
  · exact ends_anyVia hn v

theorem ends_entriesVia {keySlot valueSlot : Slot} {keyType : Declared}
    (hkey : NestedEnds (sc.pushed keyType) nested nested')
    (hvalue : NestedEnds sc nested nested') (entries : List Entry) :
    Keeps sc (entriesVia e h nested keySlot valueSlot keyType entries)
      (entriesVia e h nested' keySlot valueSlot keyType entries) := by
  induction entries with
  | nil => exact .pure _ rfl
  | cons entry entries ih =>
    refine .bind (.attempt _ rfl) fun _ => .bind (.attempt _ rfl) fun _ => ?_
    refine .bind (.declaring hs (ends_sideVia hkey keySlot _)) fun _ => ?_
    exact .bind (.keeps hs (ends_sideVia hvalue valueSlot _)) fun _ => ih

/-- **A container takes the frame that was pushed for it**, and nothing if it
    fails. -/
theorem ends_mapVia (key value : SideSetup Serializer) (o : ObjId)
    (hkey : NestedEnds (sc.pushed sc.keyType) nested nested')
    (hvalue : NestedEnds sc nested nested') :
    Ends sc (· = sc.popped) (mapVia e h nested key value o) (mapVia e h nested' key value o) := by
  unfold mapVia
  split
  · exact .throw _
  · next c hc =>
    refine .bind (ends_put _) fun _ => .get_bind fun s hargs => .get_bind fun _ _ => ?_
    refine .attempt_bind fun slots hslots => ?_
    have hkeyType : slots.2.2 = sc.keyType := hargs ▸ (resolveSlots_eq_ok.1 hslots).2.2
    refine .bind (ends_entriesVia hs ?_ hvalue c.entries) fun _ => ?_
    · rw [hkeyType]
      exact hkey
    · exact .modify fun _ hs₁ => hs₁ ▸ rfl

theorem ends_fieldsVia (tys : List Declared) (vs : List Value)
    (hn : ∀ ty, NestedEnds (sc.pushed ty) nested nested') :
    Keeps sc (fieldsVia e h nested tys vs) (fieldsVia e h nested' tys vs) := by
  induction tys generalizing vs with
  | nil => exact .pure _ rfl
  | cons ty tys ih => exact (ends_declaredVia hs _ (hn ty)).bind fun _ => ih _

theorem ends_bodyVia (o : ObjId) (ser : Serializer)
    (hn : ∀ ty, NestedEnds (sc.pushed ty) nested nested') (hvalue : NestedEnds sc nested nested') :
    Ends sc (fun sc' => sc' = sc ∨ sc' = sc.popped) (bodyVia e h nested o ser)
      (bodyVia e h nested' o ser) := by
  cases ser with
  | leaf type =>
    simp only [bodyVia]
    split
    · split
      · exact (ends_put _).mono fun _ => Or.inl
      · exact .throw _
    · exact .throw _
  | octet =>
    simp only [bodyVia]
    split
    · exact (ends_put _).mono fun _ => Or.inl
    · exact .throw _
  | record fields binds =>
    simp only [bodyVia]
    split
    · exact (ends_fieldsVia hs fields _ hn).mono fun _ => Or.inl
    · exact .throw _
  | map key value factory =>
    exact (ends_mapVia hs key value o (hn _) hvalue).mono fun _ => Or.inr

omit hs in
/-- **All levels take at most the frame that was pushed for them.** -/
theorem nestedEnds_data (levels : Nat) {sc : Scope} (hs : sc.deeper.Orderly) :
    NestedEnds sc (data e h levels) (data e h levels) := by
  intro o ser
  induction levels generalizing sc o ser with
  | zero => exact fun _ hsc => ⟨rfl, hsc⟩
  | succ levels ih =>
    exact .descend (ends_bodyVia hs o ser (fun ty => ih (hs.pushed_deeper ty)) (ih hs.deeper))

/-- Whether a writing runs nested ones in some scopes only: it does the same
    however they run in others. -/
def NestsIn (among : Scope → Prop) (nested : ObjId → Serializer → Writing Unit)
    (x : (ObjId → Serializer → Writing Unit) → Writing Unit) (s : WriteState) : Prop :=
  ∀ nested', (∀ o ser s', among s'.scope → nested' o ser s' = nested o ser s') →
    x nested' s = x nested s

end Writing

/-! ## Reading -/

namespace Reading

variable {e : Engine} {sc : Scope}

theorem ends_scan {α : Type} (x : Scan α) : Keeps sc (scan x) (scan x) := by
  intro s hs
  refine ⟨rfl, ?_⟩
  unfold scan
  cases x s.input with
  | ok a input => exact hs
  | error e input => exact hs

theorem ends_count : Keeps sc count count := (ends_scan _).bind_pure _

theorem ends_marker : Keeps sc marker marker := by
  refine (ends_scan _).bind fun code => ?_
  split
  · exact .pure _ rfl
  · exact .throw _

theorem ends_earlier : Keeps sc earlier earlier :=
  ends_count.bind fun _ => .get_bind fun _ _ => .attempt _ rfl

theorem ends_reserve : Keeps sc reserve reserve := fun _ hs => ⟨rfl, hs⟩

theorem ends_newObject (n : Node) :
    Keeps sc (newObject n : Reading ObjId) (newObject n) := fun _ hs => ⟨rfl, hs⟩

theorem ends_bindTimes (n : Nat) (o : ObjId) :
    Keeps sc (bindTimes n o : Reading Unit) (bindTimes n o) := by
  induction n with
  | zero => exact .pure _ rfl
  | succ n ih => exact .bind (.modify fun _ hs => hs) fun _ => ih

theorem ends_completing {post : Scope → Prop} {x y : Reading ObjId} (hx : Ends sc post x y) :
    Ends sc post (completing x) (completing y) := by
  intro s hs
  obtain ⟨hxy, hr⟩ := hx s hs
  show EStateM.bind y _ s = EStateM.bind x _ s ∧ Leaves sc post (EStateM.bind x _ s)
  unfold EStateM.bind
  rw [hxy]
  refine ⟨rfl, ?_⟩
  cases hxs : x s with
  | ok o s₁ =>
    rw [hxs] at hr
    simp only [get_bind]
    split <;> exact hr
  | error e s₁ =>
    rw [hxs] at hr
    exact hr

/-- Whether two ways of reading nested objects agree in a scope, and take from it
    the frame that was pushed for them at most. -/
def NestedEnds (sc : Scope)
    (nested nested' : ClassInfo → Serializer → Option Nat → Reading ObjId) : Prop :=
  ∀ c ser id, Ends sc sc.Spends (nested c ser id) (nested' c ser id)

variable {nested nested' : ClassInfo → Serializer → Option Nat → Reading ObjId}

section
variable (hn : NestedEnds sc nested nested')
include hn

theorem ends_freshVia (c : ClassInfo) (ser : Serializer) :
    Ends sc sc.Spends (freshVia nested c ser) (freshVia nested' c ser) :=
  ends_reserve.bind fun id => hn c ser (some id)

theorem ends_nullableVia (c : ClassInfo) (ser : Serializer) :
    Ends sc sc.Spends (nullableVia nested c ser) (nullableVia nested' c ser) := by
  refine ends_marker.bind fun m => ?_
  cases m with
  | null => exact .pure _ (.refl sc)
  | back => exact (ends_earlier.mono fun _ => Or.inl).bind_pure _
  | plain => exact (hn c ser none).bind_pure _
  | fresh => exact (ends_freshVia hn c ser).bind_pure _

theorem ends_objectVia (c : ClassInfo) (ser : Serializer) :
    Ends sc sc.Spends (objectVia e nested c ser) (objectVia e nested' c ser) := by
  unfold objectVia
  split
  · refine ends_marker.bind fun m => ?_
    cases m with
    | back => exact ends_earlier.mono fun _ => Or.inl
    | fresh => exact ends_freshVia hn c ser
    | null | plain => exact .throw _
  · exact hn c ser none

theorem ends_anyVia : Ends sc sc.Spends (anyVia e nested) (anyVia e nested') := by
  refine ends_count.bind fun id => ?_
  split
  · exact .pure _ (.refl sc)
  · refine .bind (.attempt _ rfl) fun c => .bind (.attempt _ rfl) fun ser => ?_
    exact (ends_objectVia hn c ser).bind_pure _

theorem ends_sideVia (slot : Slot) :
    Ends sc sc.Spends (sideVia e nested slot) (sideVia e nested' slot) := by
  unfold sideVia
  split
  · split
    · exact ends_nullableVia hn _ _
    · exact (ends_objectVia hn _ _).map _
  · exact ends_anyVia hn

end

variable (hs : sc.Orderly)
include hs

/-- **What is declared restores the scope**, and runs nested readings under the
    frame of the declaration. -/
theorem ends_declaredVia {ty : Declared} (hn : NestedEnds (sc.pushed ty) nested nested') :
    Keeps sc (declaredVia e nested ty) (declaredVia e nested' ty) := by
  refine .declaring hs ?_
  split
  · exact .bind (.attempt _ rfl) fun c => .bind (.attempt _ rfl) fun ser =>
      ends_nullableVia hn c ser
  · exact ends_anyVia hn

theorem ends_entriesVia {keySlot valueSlot : Slot} {keyType : Declared}
    (hkey : NestedEnds (sc.pushed keyType) nested nested')
    (hvalue : NestedEnds sc nested nested') (o : ObjId) (n : Nat) :
    Keeps sc (entriesVia e nested keySlot valueSlot keyType o n)
      (entriesVia e nested' keySlot valueSlot keyType o n) := by
  induction n with
  | zero => exact .pure _ rfl
  | succ n ih =>
    refine .bind (.declaring hs (ends_sideVia hkey keySlot)) fun k => ?_
    refine .bind (.keeps hs (ends_sideVia hvalue valueSlot)) fun v => ?_
    have hput : Keeps sc (putEntry o k v) (putEntry o k v) := fun _ hs => ⟨rfl, hs⟩
    exact hput.bind fun _ => ih

/-- **A container takes the frame that was pushed for it**, and nothing if it
    fails. -/
theorem ends_mapVia (c : ClassInfo) (key value : SideSetup Serializer)
    (factory : Option ContainerType) (hkey : NestedEnds (sc.pushed sc.keyType) nested nested')
    (hvalue : NestedEnds sc nested nested') :
    Ends sc (· = sc.popped) (mapVia e nested c key value factory)
      (mapVia e nested' c key value factory) := by
  refine .bind (.bind (.attempt _ rfl) fun _ => ends_newObject _) fun o => ?_
  refine ends_count.bind fun n => .get_bind fun s hargs => .get_bind fun _ _ => ?_
  refine .attempt_bind fun slots hslots => ?_
  have hkeyType : slots.2.2 = sc.keyType := hargs ▸ (resolveSlots_eq_ok.1 hslots).2.2
  refine .bind (.modify fun _ hs₁ => hs₁) fun _ => ?_
  refine .bind (ends_entriesVia hs ?_ hvalue o n) fun _ => ?_
  · rw [hkeyType]
    exact hkey
  · exact Ends.bind_pure (.modify fun _ hs₁ => hs₁ ▸ rfl) _

theorem ends_fieldsVia (o : ObjId) (tys : List Declared)
    (hn : ∀ ty, NestedEnds (sc.pushed ty) nested nested') :
    Keeps sc (fieldsVia e nested o tys) (fieldsVia e nested' o tys) := by
  induction tys with
  | nil => exact .pure _ rfl
  | cons ty tys ih =>
    exact (ends_declaredVia hs (hn ty)).bind fun v => .bind (.modify fun _ hs₁ => hs₁) fun _ => ih

theorem ends_bodyVia (c : ClassInfo) (ser : Serializer)
    (hn : ∀ ty, NestedEnds (sc.pushed ty) nested nested') (hvalue : NestedEnds sc nested nested') :
    Ends sc (fun sc' => sc' = sc ∨ sc' = sc.popped) (bodyVia e nested c ser)
      (bodyVia e nested' c ser) := by
  cases ser with
  | leaf type => exact ((ends_scan _).bind fun _ => ends_newObject _).mono fun _ => Or.inl
  | octet => exact ((ends_scan _).bind fun _ => ends_newObject _).mono fun _ => Or.inl
  | record fields binds =>
    refine Ends.mono ((ends_newObject _).bind fun o => ?_) fun _ => Or.inl
    exact (ends_bindTimes binds o).bind fun _ => (ends_fieldsVia hs o fields hn).bind_pure _
  | map key value factory =>
    exact (ends_mapVia hs c key value factory (hn _) hvalue).mono fun _ => Or.inr

omit hs in
/-- **All levels take at most the frame that was pushed for them.** -/
theorem nestedEnds_data (levels : Nat) {sc : Scope} (hs : sc.deeper.Orderly) :
    NestedEnds sc (data e levels) (data e levels) := by
  intro c ser id
  induction levels generalizing sc c ser id with
  | zero => exact fun _ hsc => ⟨rfl, hsc⟩
  | succ levels ih =>
    refine .descend (.bind (.modify fun _ hs₁ => hs₁) fun _ => ends_completing ?_)
    exact ends_bodyVia hs c ser (fun ty => ih (hs.pushed_deeper ty)) (ih hs.deeper)

/-- Whether a reading runs nested ones in some scopes only: it does the same
    however they run in others. -/
def NestsIn {α : Type} (among : Scope → Prop)
    (nested : ClassInfo → Serializer → Option Nat → Reading ObjId)
    (x : (ClassInfo → Serializer → Option Nat → Reading ObjId) → Reading α) (s : ReadState) :
    Prop :=
  ∀ nested', (∀ c ser id s', among s'.scope → nested' c ser id s' = nested c ser id s') →
    x nested' s = x nested s

end Reading

/-! ## What operations leave -/

namespace Writing

variable {e : Engine} {h : Heap} {s : WriteState}

theorem balanced_declared (hs : s.scope.Orderly) (ty : Declared) (v : Value) :
    Leaves s.scope (· = s.scope) (declared e h ty v s) ∧
      ∀ levels, NestsIn (· = s.scope.pushed ty) (data e h levels)
        (fun nested => declaredVia e h nested ty v) s := by
  have hn := fun levels => nestedEnds_data (e := e) (h := h) levels (hs.pushed_deeper ty)
  refine ⟨(ends_declaredVia hs v (hn _) s rfl).2, fun levels nested' hsame => ?_⟩
  exact (ends_declaredVia hs v
    (fun o ser => (hn levels o ser).congr fun s' => hsame o ser s') s rfl).1

theorem balanced_map (hs : s.scope.Orderly) (key value : SideSetup Serializer) (o : ObjId)
    (levels : Nat) :
    Leaves s.scope (· = s.scope.popped) (mapVia e h (data e h levels) key value o s) ∧
      NestsIn (fun sc => sc = s.scope ∨ sc = s.scope.pushed s.scope.keyType) (data e h levels)
        (fun nested => mapVia e h nested key value o) s := by
  have hkey := nestedEnds_data (e := e) (h := h) levels (hs.pushed_deeper s.scope.keyType)
  have hvalue := nestedEnds_data (e := e) (h := h) levels hs.deeper
  refine ⟨(ends_mapVia hs key value o hkey hvalue s rfl).2, fun nested' hsame => ?_⟩
  exact (ends_mapVia hs key value o
    (fun p ser => (hkey p ser).congr fun s' hs' => hsame p ser s' (Or.inr hs'))
    (fun p ser => (hvalue p ser).congr fun s' hs' => hsame p ser s' (Or.inl hs')) s rfl).1

end Writing

namespace Reading

variable {e : Engine} {s : ReadState}

theorem balanced_declared (hs : s.scope.Orderly) (ty : Declared) :
    Leaves s.scope (· = s.scope) (declared e ty s) ∧
      ∀ levels, NestsIn (· = s.scope.pushed ty) (data e levels)
        (fun nested => declaredVia e nested ty) s := by
  have hn := fun levels => nestedEnds_data (e := e) levels (hs.pushed_deeper ty)
  refine ⟨(ends_declaredVia hs (hn _) s rfl).2, fun levels nested' hsame => ?_⟩
  exact (ends_declaredVia hs
    (fun c ser id => (hn levels c ser id).congr fun s' => hsame c ser id s') s rfl).1

theorem balanced_map (hs : s.scope.Orderly) (c : ClassInfo) (key value : SideSetup Serializer)
    (factory : Option ContainerType) (levels : Nat) :
    Leaves s.scope (· = s.scope.popped) (mapVia e (data e levels) c key value factory s) ∧
      NestsIn (fun sc => sc = s.scope ∨ sc = s.scope.pushed s.scope.keyType) (data e levels)
        (fun nested => mapVia e nested c key value factory) s := by
  have hkey := nestedEnds_data (e := e) levels (hs.pushed_deeper s.scope.keyType)
  have hvalue := nestedEnds_data (e := e) levels hs.deeper
  refine ⟨(ends_mapVia hs c key value factory hkey hvalue s rfl).2, fun nested' hsame => ?_⟩
  exact (ends_mapVia hs c key value factory
    (fun d ser id => (hkey d ser id).congr fun s' hs' => hsame d ser id s' (Or.inr hs'))
    (fun d ser id => (hvalue d ser id).congr fun s' hs' => hsame d ser id s' (Or.inl hs'))
    s rfl).1

end Reading

/-- **Scopes stay in order and are left as they were.**  Operations begin in a scope
    in order; what is declared leaves a scope in order as it was, however it ends,
    and a container leaves it so if it fails, and without the frame that was pushed
    for it if it does not.  Both go on to nested objects only where they are, or under
    the frame of their declaration; one level deeper that is in order again, and
    shows the arguments of the declaration and no others. -/
theorem Engine.scope_balanced (e : Engine) :
    Scope.start.Orderly ∧
    (∀ sc : Scope, sc.Orderly → sc.deeper.Orderly ∧ sc.deeper.args = [] ∧
      sc.deeper.popped = sc.deeper ∧
      ∀ ty : Declared, (sc.pushed ty).deeper.Orderly ∧ (sc.pushed ty).deeper.args = ty.args ∧
        (sc.pushed ty).deeper.popped = sc.deeper) ∧
    (∀ (h : Heap) (s : WriteState), s.scope.Orderly →
      (∀ (ty : Declared) (v : Value),
        Leaves s.scope (· = s.scope) (Writing.declared e h ty v s) ∧
        ∀ levels, Writing.NestsIn (· = s.scope.pushed ty) (Writing.data e h levels)
          (fun nested => Writing.declaredVia e h nested ty v) s) ∧
      ∀ (key value : SideSetup Serializer) (o : ObjId) (levels : Nat),
        Leaves s.scope (· = s.scope.popped)
          (Writing.mapVia e h (Writing.data e h levels) key value o s) ∧
        Writing.NestsIn (fun sc => sc = s.scope ∨ sc = s.scope.pushed s.scope.keyType)
          (Writing.data e h levels) (fun nested => Writing.mapVia e h nested key value o) s) ∧
    ∀ s : ReadState, s.scope.Orderly →
      (∀ ty : Declared,
        Leaves s.scope (· = s.scope) (Reading.declared e ty s) ∧
        ∀ levels, Reading.NestsIn (· = s.scope.pushed ty) (Reading.data e levels)
          (fun nested => Reading.declaredVia e nested ty) s) ∧
      ∀ (c : ClassInfo) (key value : SideSetup Serializer) (factory : Option ContainerType)
        (levels : Nat),
        Leaves s.scope (· = s.scope.popped)
          (Reading.mapVia e (Reading.data e levels) c key value factory s) ∧
        Reading.NestsIn (fun sc => sc = s.scope ∨ sc = s.scope.pushed s.scope.keyType)
          (Reading.data e levels) (fun nested => Reading.mapVia e nested c key value factory)
          s := by
  refine ⟨Scope.orderly_start, fun sc hs => ?_, fun h s hs => ?_, fun s hs => ?_⟩
  · have hnone : sc.deeper.popped = sc.deeper := congrArg Scope.deeper hs.spent_eq
    refine ⟨hs.deeper, hs.args_deeper, hnone, fun ty => ?_⟩
    have htaken : (sc.pushed ty).deeper.popped = sc.deeper :=
      congrArg Scope.deeper (hs.spent_pushed ty)
    exact ⟨hs.pushed_deeper ty, hs.args_pushed_deeper ty, htaken⟩
  · exact ⟨Writing.balanced_declared hs, Writing.balanced_map hs⟩
  · exact ⟨Reading.balanced_declared hs, Reading.balanced_map hs⟩

/-- A container under the frame of its own declaration and that of an outer one. -/
def Scope.twoDeep : Scope := ⟨⟨[⟨1, [.unknown, .param 0]⟩, ⟨0, [.unknown]⟩]⟩, 2⟩

/-- It takes its own frame and leaves the other; a field beside it takes neither. -/
theorem Engine.scope_balanced_twoDeep :
    Scope.twoDeep.Orderly ∧ Scope.twoDeep.popped = ⟨⟨[⟨0, [.unknown]⟩]⟩, 2⟩ ∧
    Leaves Scope.twoDeep (· = Scope.twoDeep.popped)
      (Writing.mapVia {} ⟨#[.container (.empty .linked)]⟩
        (Writing.data {} ⟨#[.container (.empty .linked)]⟩ 3) {} {} 0
        ⟨.empty false, .empty, .twoDeep⟩) ∧
    Leaves Scope.twoDeep (· = Scope.twoDeep)
      (Reading.declared {} (.concrete (.container .linked) [.param 0, .unknown])
        ⟨.ofBytes [0x0b, 0x01, 0x00, 0x00], .empty, .empty, .twoDeep, 0⟩) := by
  have hs : Scope.twoDeep.Orderly := ⟨by decide, by decide⟩
  obtain ⟨-, -, hwriting, hreading⟩ := scope_balanced {}
  exact ⟨hs, rfl, ((hwriting _ ⟨_, _, .twoDeep⟩ hs).2 {} {} 0 3).1,
    ((hreading ⟨_, _, _, .twoDeep, 0⟩ hs).1 _).1⟩

end GraphWire

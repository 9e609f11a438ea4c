/-
  Declarations that name no final type.

  A declaration whose types are not final is mute: of no side of any entry does it say what
  stands there.  Its frames are pushed, looked up and taken all the same, and lie below those
  of the declarations that are met on the way.

  * `Frames.lookUp_append`: with mute frames at the bottom, every declaration stands for the
    same final type or for none;
  * `Scope.Unveils` relates scopes with such frames to those without, and `Scope.Unveils.serves`
    that both sides of all entries are encoded alike in them;
  * `Engine.field_of_mute`: so what is declared so is written, and read, as if it were not
    declared.
-/
import GraphWire.Proofs.Grounding
import GraphWire.Proofs.Readings
import GraphWire.Proofs.Scans

namespace GraphWire

variable {r : Registry}

/-! ## Mute declarations -/

namespace Declared

mutual

/-- The types that a declaration names, however far in. -/
def names : Declared → List ObjectType
  | concrete type args => type :: namesAll args
  | param _ | unknown => []

/-- The types that declarations name. -/
def namesAll : List Declared → List ObjectType
  | [] => []
  | ty :: tys => names ty ++ namesAll tys

end

/-- Whether a declaration names no final type, however far in. -/
def Mute (r : Registry) (ty : Declared) : Prop := ∀ type ∈ ty.names, r.isFinal type = false

theorem mem_namesAll {type : ObjectType} {tys : List Declared} :
    type ∈ namesAll tys ↔ ∃ ty ∈ tys, type ∈ ty.names := by
  induction tys with
  | nil => simp [namesAll]
  | cons ty tys ih => simp [namesAll, ih]

theorem mute_param (i : Nat) : (param i).Mute r := by simp [Mute, names]

theorem mute_unknown : unknown.Mute r := by simp [Mute, names]

theorem Mute.args {ty : Declared} (h : ty.Mute r) : ∀ arg ∈ ty.args, arg.Mute r := by
  cases ty with
  | concrete type args =>
    intro arg harg t ht
    exact h t (List.mem_cons_of_mem _ (mem_namesAll.2 ⟨arg, harg, ht⟩))
  | param i => exact List.forall_mem_nil _
  | unknown => exact List.forall_mem_nil _

theorem Mute.type? {ty : Declared} (h : ty.Mute r) : ty.type?.filter r.isFinal = none := by
  cases ty with
  | concrete type args => simp [Declared.type?, Option.filter, h type List.mem_cons_self]
  | param i => rfl
  | unknown => rfl

end Declared

/-! ## Mute frames -/

namespace Frames

/-- Whether all arguments in the frames are mute. -/
def Mute (r : Registry) (stack : List Frame) : Prop :=
  ∀ frame ∈ stack, ∀ arg ∈ frame.args, arg.Mute r

variable {veil : List Frame}

theorem Mute.tail {frame : Frame} {below : List Frame} (h : Mute r (frame :: below)) :
    Mute r below := fun f hf => h f (List.mem_cons_of_mem _ hf)

/-- A mute argument of mute frames stands for no final type. -/
theorem Mute.lookUp (hv : Mute r veil) {ty : Declared} (h : ty.Mute r) :
    (lookUp veil ty).filter r.isFinal = none := by
  induction veil generalizing ty with
  | nil =>
    cases ty with
    | concrete type args => exact h.type?
    | param i => rfl
    | unknown => rfl
  | cons frame below ih =>
    cases ty with
    | concrete type args => exact h.type?
    | unknown => rfl
    | param i =>
      simp only [Frames.lookUp]
      cases hi : frame.args[i]? with
      | none => rfl
      | some arg =>
        exact ih hv.tail (hv frame List.mem_cons_self arg (List.mem_of_getElem? hi))

/-- **Mute frames at the bottom say nothing**: every declaration stands for the same final type
    with them and without, or for none. -/
theorem lookUp_append (hv : Mute r veil) (stack : List Frame) (ty : Declared) :
    (lookUp (stack ++ veil) ty).filter r.isFinal = (lookUp stack ty).filter r.isFinal := by
  induction stack generalizing ty with
  | nil =>
    cases ty with
    | concrete type args => rw [lookUp_concrete, lookUp_concrete]
    | unknown => rw [lookUp_unknown, lookUp_unknown]
    | param i => exact hv.lookUp (Declared.mute_param i)
  | cons frame below ih =>
    cases ty with
    | concrete type args => rfl
    | unknown => rfl
    | param i =>
      simp only [List.cons_append, Frames.lookUp]
      cases frame.args[i]? with
      | none => rfl
      | some arg => exact ih arg

end Frames

/-! ## Scopes under a veil -/

namespace Scope

/-- Whether the second scope is the first without some mute frames at the bottom. -/
structure Unveils (r : Registry) (sc sc' : Scope) : Prop where
  depth : sc'.depth = sc.depth
  stack : ∃ veil, Frames.Mute r veil ∧ sc.frames.stack = sc'.frames.stack ++ veil

namespace Unveils

variable {sc sc' : Scope}

theorem entered (h : sc.Unveils r sc') (hs : sc.Entered) : sc'.Entered := by
  obtain ⟨veil, -, hstack⟩ := h.stack
  intro frame hf
  rw [h.depth]
  exact hs frame (hstack ▸ List.mem_append_left veil hf)

theorem deeper (h : sc.Unveils r sc') : sc.deeper.Unveils r sc'.deeper :=
  ⟨congrArg (· + 1) h.depth, h.stack⟩

/-- What is declared in both is entered above the veil. -/
theorem pushed (h : sc.Unveils r sc') (ty : Declared) :
    (sc.pushed ty).Unveils r (sc'.pushed ty) := by
  by_cases hargs : ty.args = []
  · rwa [pushed_of_args_eq_nil hargs, pushed_of_args_eq_nil hargs]
  · obtain ⟨veil, hv, hstack⟩ := h.stack
    refine ⟨h.depth, veil, hv, ?_⟩
    rw [stack_pushed hargs, stack_pushed hargs, hstack, h.depth, List.cons_append]

/-- What is mute and declared in the one scope only becomes part of the veil. -/
theorem pushed_left (h : sc.Unveils r sc') (hnil : sc'.frames.stack = []) {ty : Declared}
    (hty : ty.Mute r) : (sc.pushed ty).Unveils r sc' := by
  by_cases hargs : ty.args = []
  · rwa [pushed_of_args_eq_nil hargs]
  · obtain ⟨veil, hv, hstack⟩ := h.stack
    refine ⟨h.depth, ⟨sc.depth, ty.args⟩ :: veil, ?_, ?_⟩
    · exact List.forall_mem_cons.2 ⟨hty.args, hv⟩
    · rw [stack_pushed hargs, hstack, hnil, List.nil_append, List.nil_append]

/-- What runs here finds the same arguments in both scopes, or mute ones under the veil and
    none without it. -/
theorem args (h : sc.Unveils r sc') : (sc'.frames.stack ≠ [] ∧ sc'.args = sc.args) ∨
    (sc'.frames.stack = [] ∧ sc'.args = [] ∧ ∀ arg ∈ sc.args, arg.Mute r) := by
  obtain ⟨veil, hv, hstack⟩ := h.stack
  cases hst' : sc'.frames.stack with
  | cons frame below =>
    rw [hst', List.cons_append] at hstack
    refine Or.inl ⟨List.cons_ne_nil _ _, ?_⟩
    rw [args_of_cons hst', args_of_cons hstack, h.depth]
  | nil =>
    rw [hst', List.nil_append] at hstack
    refine Or.inr ⟨rfl, args_of_nil hst', ?_⟩
    cases veil with
    | nil =>
      rw [args_of_nil hstack]
      exact List.forall_mem_nil _
    | cons frame below =>
      rw [args_of_cons hstack]
      split
      · exact hv frame List.mem_cons_self
      · exact List.forall_mem_nil _

/-- The sides of what runs here stand for the same final types, or for none. -/
theorem resolve_args (h : sc.Unveils r sc') (k : Nat) :
    (sc'.args[k]?.bind sc'.frames.resolve).filter r.isFinal =
      (sc.args[k]?.bind sc.frames.resolve).filter r.isFinal := by
  obtain ⟨veil, hv, hstack⟩ := h.stack
  obtain ⟨hne, hargs⟩ | ⟨hnil, hargs, hmute⟩ := h.args
  · obtain ⟨frame, below, hst'⟩ := List.exists_cons_of_ne_nil hne
    rw [hst', List.cons_append] at hstack
    rw [hargs]
    cases sc.args[k]? with
    | none => rfl
    | some arg =>
      simp only [Option.bind_some, Frames.resolve, hst', hstack]
      exact (Frames.lookUp_append hv below arg).symm
  · rw [hargs]
    cases hk : sc.args[k]? with
    | none => rfl
    | some arg =>
      have harg := hmute arg (List.mem_of_getElem? hk)
      rw [hnil, List.nil_append] at hstack
      simp only [Option.bind_some, Frames.resolve, hstack]
      cases veil with
      | nil => rfl
      | cons frame below => exact (hv.tail.lookUp harg).symm

/-- The keys of what runs here are entered above the veil or become part of it. -/
theorem keys (h : sc.Unveils r sc') :
    (sc.pushed sc.keyType).Unveils r (sc'.pushed sc'.keyType) := by
  obtain ⟨-, hargs⟩ | ⟨hnil, hargs, hmute⟩ := h.args
  · unfold keyType
    rw [hargs]
    exact h.pushed _
  · have hkey' : sc'.pushed sc'.keyType = sc' := by
      unfold keyType
      rw [hargs]
      exact pushed_of_args_eq_nil rfl
    have hkey : sc.keyType.Mute r := by
      unfold keyType
      cases hk : sc.args[0]? with
      | none => exact Declared.mute_unknown
      | some arg => exact hmute arg (List.mem_of_getElem? hk)
    rw [hkey']
    exact h.pushed_left hnil hkey

/-- **Under a veil all sides are encoded as without it.** -/
theorem serves (r : Registry) : Scope.Serves r (Unveils r) where
  depth h := h.depth
  entered h := h.entered
  slots h := resolveSlots_congr h.resolve_args
  deeper h := h.deeper
  pushed h := h.pushed
  keys h := h.keys

theorem start {ty : Declared} (hty : ty.Mute r) :
    (Scope.start.pushed ty).Unveils r (Scope.start.pushed .unknown) :=
  have hstart : Scope.start.Unveils r .start := ⟨rfl, [], List.forall_mem_nil _, rfl⟩
  hstart.pushed_left rfl hty

end Unveils

end Scope

/-! ## Values that are declared -/

namespace Engine

variable {e : Engine} {ty : Declared}

/-- What is written does not show in which scope the writing ended. -/
theorem writing_leaving (f : Scope → Scope) (x : Writing Unit) :
    writing (leaving (inScope f) x) = writing x := by
  funext out
  unfold writing leaving
  cases x (.start out) <;> rfl

theorem reading_leaving (f : Scope → Scope) (h : Heap) (x : Reading Value) :
    reading h (leaving (inScope f) x) = reading h x := by
  funext i
  unfold reading leaving
  cases x (.start i h) <;> rfl

/-- What nothing is declared of is written as it is. -/
theorem writeStream_declared_unknown (e : Engine) (h : Heap) (v : Value) :
    e.writeStream v (Writing.declared e h .unknown v) = e.writeStream v (Writing.any e h v) := by
  unfold writeStream
  rw [show writing (Writing.declared e h .unknown v) = writing (Writing.any e h v) from
    writing_leaving (·.lowered 0) (Writing.any e h v)]

theorem readStream_declared_unknown (e : Engine) (h : Heap) :
    e.readStream h (Reading.declared e .unknown) = e.readStream h (Reading.any e) := by
  unfold readStream
  rw [show reading h (Reading.declared e .unknown) = reading h (Reading.any e) from
    reading_leaving (·.lowered 0) h (Reading.any e)]

variable (h : Heap) (hty : ty.Mute e.registry)
include hty

/-- What is declared mutely is written as if nothing were declared. -/
theorem pairs_declared_mute (p : Output) (v : Value) :
    Writing.PairsTo p .start .start (Writing.Pair p .start .start) (Writing.declared e h ty v)
      (Writing.declared e h .unknown v) := by
  intro s t hst
  have hstart := Scope.orderly_start.entered
  have hn : Writing.NestedPairs p (Scope.start.pushed ty) (Scope.start.pushed .unknown)
      (Writing.data e h e.config.maxDepth) :=
    Writing.nestedPairs_data (Scope.Unveils.serves _) _ (hstart.pushed_deeper ty) (.start hty)
  unfold Writing.declared Writing.withNested
  rw [hst.left, hst.right]
  exact Writing.pairs_declaredVia hstart hstart (Eq.symm hty.type?) v hn s t hst

/-- What is declared mutely is read as if nothing were declared. -/
theorem inStep_declared_mute : InStep .strict (Reading.Pair .start .start)
    (Reading.declared e ty) (Reading.declared e .unknown) := by
  intro s t hst
  have hstart := Scope.orderly_start.entered
  have hn : Reading.NestedPairs (Scope.start.pushed ty) (Scope.start.pushed .unknown)
      (Reading.data e e.config.maxDepth) :=
    Reading.nestedPairs_data (Scope.Unveils.serves _) _ (hstart.pushed_deeper ty) (.start hty)
  have hleft : s.scope = .start := Reading.pairing_pair.left hst
  have hright : t.scope = .start := Reading.pairing_pair.right hst
  unfold Reading.declared Reading.withNested
  rw [hleft, hright]
  exact Reading.pairs_declaredVia hstart hstart (Eq.symm hty.type?) hn s t hst

theorem serializeField_of_mute (v : Value) : e.serializeField h ty v = e.serialize h v := by
  have hwriting := inStep_writing (O := Output.After (.empty e.config.native))
    (fun _ _ ho => ⟨ho, rfl, rfl, rfl⟩) (fun _ _ hst => hst.out) (pairs_declared_mute h hty _ v)
  rw [serialize_eq_written, ← writeStream_declared_unknown]
  exact written_eq (inStep_writeStream Output.joint_after rfl hwriting)
    (Output.after_empty.2 ⟨rfl, rfl⟩) fun _ _ ho => (Output.after_empty.1 ho).1

theorem deserializeField_of_mute (bs : Bytes) :
    e.deserializeField h ty bs = e.deserialize h bs := by
  have hreading := beside_reading (S := fun a b => a = .start ∧ b = .start) ⟨rfl, rfl⟩ h
    (inStep_declared_mute hty)
  rw [deserialize_eq_readStream, ← readStream_declared_unknown]
  refine InStepTo.resultOf_eq ((InStepTo.refl e.readHeader).bind fun null => ?_) _
  split
  · exact .pure _
  · exact hreading

omit hty

/-- **A declaration that names no final type changes nothing.**  With parameters and unknowns
    anywhere in it, a value that is declared so is written to the same bytes as if it were not
    declared, or fails with the same error, and so it is read from any bytes. -/
theorem field_of_mute (e : Engine) (h : Heap) (hty : ty.Mute e.registry) :
    (∀ v, e.serializeField h ty v = e.serialize h v) ∧
      ∀ bs, e.deserializeField h ty bs = e.deserialize h bs :=
  ⟨serializeField_of_mute h hty, deserializeField_of_mute h hty⟩

/-- Containers in one another, with parameters for their keys. -/
def nesting : Declared :=
  Writing.linkedOf (Writing.hashOf (.param 1) .unknown) (Writing.linkedOf (.param 0) .unknown)

theorem field_of_mute_nesting : nesting.Mute Registry.builtins ∧
    Engine.serializeField {} Writing.containerKey nesting (some 0) =
      .ok [2, 11, 1, 10, 1, 9, 1, 120, 5, 2, 9, 1, 112] ∧
    Engine.deserializeField {} Writing.containerKey nesting [2, 11, 1, 10, 1, 9, 1, 120] =
      Engine.deserialize {} Writing.containerKey [2, 11, 1, 10, 1, 9, 1, 120] := by
  have hmute : nesting.Mute Registry.builtins := by
    unfold Declared.Mute
    decide
  have hfield := field_of_mute {} Writing.containerKey hmute
  refine ⟨hmute, ?_, hfield.2 [2, 11, 1, 10, 1, 9, 1, 120]⟩
  rw [hfield.1 (some 0)]
  decide +kernel

end Engine

end GraphWire

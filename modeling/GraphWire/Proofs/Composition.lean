/-
  What readings are made of.

  All reading of items comes down to consuming bytes, few at a time or in bulk, to looking
  at the layout, and to failing over bytes that spell nothing (`Scan.Composed`).  What holds
  of these and is kept where they follow on one another holds of the reading of every item.

  * `Input.composed_item`: so every item is read;
  * `Input.composed_into`: so is every target filled that holds bytes or numbers, though
    numbers may be read over one by one or all at once.
-/
import GraphWire.Bytes.Request
import GraphWire.Proofs.Runs

namespace GraphWire

variable {α β : Type}

/-- The errors of reading items from bytes. -/
inductive Error.OfItem : Error → Prop where
  | underflow (required available : Nat) : OfItem (.underflow required available)
  | varintOverflow (bits : Nat) : OfItem (.varintOverflow bits)
  | varintTooLong (bytes : Nat) : OfItem (.varintTooLong bytes)
  | notText (fault : Utf8.Fault) : OfItem (.notText fault)

namespace Scan

/-- Whether a reading is made of consuming bytes, and fails otherwise only over what they
    spell. -/
inductive Composed : {α : Type} → Scan α → Prop where
  | protected pure {α : Type} (a : α) : Composed (pure a)
  | protected throw {α : Type} {e : Error} (he : e.OfItem) : Composed (throw e : Scan α)
  | protected bind {α β : Type} {x : Scan α} {f : α → Scan β} (hx : Composed x)
      (hf : ∀ a, Composed (f a)) : Composed (x >>= f)
  | layout {α : Type} (f : Bool → Scan α) (hf : ∀ native, Composed (f native)) :
      Composed (get >>= fun i => f i.native)
  /-- At most eight bytes, which every buffer with a source has room for. -/
  | take {n : Nat} (hn : n ≤ 8) : Composed (Input.take n)
  | bytes (n : Nat) : Composed (Input.bytes n)

protected theorem Composed.map {x : Scan α} (hx : Composed x) (f : α → β) : Composed (f <$> x) := by
  rw [map_eq_pure_bind]
  exact hx.bind fun _ => .pure _

end Scan

namespace Input

open Scan

/-! ## Items -/

theorem composed_byte : Composed byte := (Composed.take (by decide)).bind fun _ => .pure _

theorem composed_bool : Composed bool := composed_byte.bind fun _ => .pure _

theorem composed_octet : Composed octet := composed_byte.bind fun _ => .pure _

theorem composed_scalar (s : Scalar) : Composed (scalar s) := by
  have hwidth : s.width ≤ 8 := by cases s <;> decide
  exact (Composed.take hwidth).bind fun _ => .pure _

theorem composed_varGroups (bits n : Nat) : Composed (varGroups bits n) := by
  induction n with
  | zero => exact .throw (.varintTooLong _)
  | succ n ih =>
    refine composed_byte.bind fun b => ?_
    split
    · exact .throw (.varintOverflow _)
    split
    · exact .pure _
    · exact ih.bind fun _ => .pure _

theorem composed_var (t : VarNumber) : Composed (var t) := by
  refine .layout (fun native => if native then scalar t.scalar else do
    return t.unfold (← varGroups t.bits (Varint.maxBytes t.bits))) fun native => ?_
  cases native with
  | true => exact composed_scalar _
  | false => exact (composed_varGroups _ _).bind fun _ => .pure _

theorem composed_string : Composed string := by
  refine (composed_var .u32).bind fun n => (Composed.bytes _).bind fun bs => ?_
  split
  · exact .pure _
  · exact .throw (.notText _)

theorem composed_times {x : Scan α} (hx : Composed x) (n : Nat) : Composed (times x n) := by
  induction n with
  | zero => exact .pure _
  | succ n ih => exact hx.bind fun _ => ih.bind fun _ => .pure _

/-! ## Bulk reading -/

/-- Reading over numbers one by one reads so many numbers. -/
theorem overwrite_eq (s : Scalar) (vs : List s.Value) (i : Input) :
    resultOfBulk (overwrite s vs i) = times (scalar s) vs.length i := by
  induction vs generalizing i with
  | nil => rfl
  | cons v vs ih =>
    unfold overwrite
    show _ = EStateM.bind (scalar s) _ i
    unfold EStateM.bind
    cases scalar s i with
    | error e i' => rfl
    | ok w i' =>
      show _ = EStateM.bind (times (scalar s) vs.length) _ i'
      rw [EStateM.bind, ← ih i']
      dsimp only
      rcases overwrite s vs i' with ⟨ws, failure, i''⟩
      cases failure <;> rfl

/-- Bytes in bulk, put over the first of the given ones. -/
theorem resultOfBulk_transfer (raw : Bytes) (f : Bytes → α) (i : Input) :
    resultOfBulk (f ((transfer raw.length i).delivered ++
        raw.drop (transfer raw.length i).delivered.length),
      (transfer raw.length i).failure, (transfer raw.length i).rest) =
      ((fun bs => f (bs ++ raw.drop bs.length)) <$> bytes raw.length) i := by
  show _ = EStateM.map _ _ i
  unfold EStateM.map bytes
  rcases transfer raw.length i with ⟨bs, failure, i'⟩
  cases failure <;> rfl

/-- Reading over numbers in a layout: their bytes in bulk, or one by one. -/
def scalarsOver (s : Scalar) (vs : List s.Value) (native : Bool) : Scan (List s.Value) :=
  let raw := s.stored vs
  if native then
    (fun bs : Bytes => s.decodeMany vs.length (bs ++ raw.drop bs.length)) <$> bytes raw.length
  else times (scalar s) vs.length

theorem fillScalars_eq (s : Scalar) (vs : List s.Value) (i : Input) :
    resultOfBulk (fillScalars s vs i) = scalarsOver s vs i.native i := by
  unfold fillScalars scalarsOver
  cases i.native with
  | true => exact resultOfBulk_transfer _ (s.decodeMany vs.length) i
  | false => exact overwrite_eq s vs i

theorem composed_fillScalars (s : Scalar) (vs : List s.Value) :
    Composed fun i => resultOfBulk (fillScalars s vs i) := by
  rw [funext (fillScalars_eq s vs)]
  refine .layout (scalarsOver s vs) fun native => ?_
  cases native with
  | true => exact (Composed.bytes _).map _
  | false => exact composed_times (composed_scalar s) _

/-- Numbers are read over as many zeros. -/
theorem scalars_eq (s : Scalar) (n : Nat) (i : Input) :
    scalars s n i = resultOfBulk (fillScalars s (List.replicate n 0) i) := by
  unfold scalars
  rcases fillScalars s (List.replicate n 0) i with ⟨vs, failure, i'⟩
  cases failure <;> rfl

theorem composed_scalars (s : Scalar) (n : Nat) : Composed (scalars s n) := by
  rw [funext (scalars_eq s n)]
  exact composed_fillScalars s _

theorem composed_vars (t : VarNumber) (n : Nat) : Composed (vars t n) := by
  refine .layout (fun native => if native then scalars t.scalar n else times (var t) n)
    fun native => ?_
  cases native with
  | true => exact composed_scalars _ _
  | false => exact composed_times (composed_var t) _

/-- **Every item is read by consuming bytes.** -/
theorem composed_item (type : ItemType) : Composed (item type) := by
  cases type with
  | bool => exact composed_bool.map _
  | u8 | i8 => exact composed_octet.map _
  | scalar s => exact (composed_scalar s).map _
  | var t => exact (composed_var t).map _
  | string => exact composed_string.map _
  | scalars s n => exact (composed_scalars s n).map _
  | vars t n => exact (composed_vars t n).map _

/-- **A target is filled by consuming bytes**, unless it can hold none. -/
theorem composed_into (target : Target) :
    Composed (into target) ∨ into target = throw .notNumeric := by
  cases target with
  | bytes bs =>
    refine Or.inl ?_
    have hinto : into (.bytes bs) =
        (fun got => .bytes (got ++ bs.drop got.length)) <$> bytes bs.length :=
      funext (resultOfBulk_transfer bs Target.bytes)
    rw [hinto]
    exact (Composed.bytes _).map _
  | scalars s vs =>
    refine Or.inl ?_
    have hinto : into (.scalars s vs) =
        Target.scalars s <$> fun i => resultOfBulk (fillScalars s vs i) := by
      funext i
      show _ = EStateM.map _ _ i
      simp only [into, fillTarget, EStateM.map]
      rcases fillScalars s vs i with ⟨ws, failure, i'⟩
      cases failure <;> rfl
    rw [hinto]
    exact (composed_fillScalars s vs).map _
  | unsuited => exact Or.inr rfl

end Input

end GraphWire

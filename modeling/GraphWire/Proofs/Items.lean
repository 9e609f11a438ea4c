/-
  Items that follow on one another.

  Whatever is written to an output is read back from its bytes by asking for the same items
  in turn: each reading stops where the writing of its item did.

  * `Input.reads_item`: an item is read from the bytes it is written as, wherever they stand,
    the rows in bulk as well as number by number;
  * `VarNumber.length_encode_le_iff`: how many bytes a number of variable length takes;
  * `Input.items_of_puts`: so is every output read back, and no number could take fewer bytes.
-/
import GraphWire.Proofs.Composition
import GraphWire.Proofs.Shortest

namespace GraphWire

variable {α : Type}

/-! ## Outputs -/

namespace Output

/-- An output holds its items one behind the other. -/
theorem bytes_puts (items : List Item) (o : Output) :
    (items.foldl put o).bytes = o.bytes ++ items.flatMap (Item.encode o.native) := by
  induction items generalizing o with
  | nil => simp
  | cons a items ih => rw [List.foldl_cons, ih, bytes_put, native_put, List.append_assoc]; rfl

end Output

/-! ## Rows -/

namespace Item

/-- A row takes the bytes of its numbers, also where it is copied from memory. -/
@[simp] theorem encode_scalars (native : Bool) (s : Scalar) (vs : List s.Value) :
    (Item.scalars s vs).encode native = vs.flatMap s.encode := by
  cases native with
  | true => exact s.stored_eq vs
  | false => rfl

@[simp] theorem encode_vars (native : Bool) (t : VarNumber) (vs : List t.Value) :
    (Item.vars t vs).encode native = vs.flatMap (t.encode native) := by
  cases native with
  | true => exact t.scalar.stored_eq vs
  | false => rfl

end Item

namespace Input

open Scan

variable {native : Bool}

/-- Equal readings, one behind the other. -/
theorem reads_times {x : Scan α} {f : α → Bytes} (h : ∀ a, Reads native x (f a) a) (as : List α) :
    Reads native (times x as.length) (as.flatMap f) as := by
  induction as with
  | nil => exact .pure []
  | cons a as ih => exact (h a).bind (ih.bind_nil (.pure _))

/-- Numbers are read over others of the same number, whatever these are. -/
theorem reads_scalarsOver (s : Scalar) {vs ws : List s.Value} (h : ws.length = vs.length) :
    Reads native (scalarsOver s ws native) (vs.flatMap s.encode) vs := by
  cases native with
  | false =>
    show Reads false (times (scalar s) ws.length) _ vs
    rw [h]
    exact reads_times (reads_scalar s) vs
  | true =>
    have hlen : (s.stored ws).length = (vs.flatMap s.encode).length := by
      rw [← s.stored_eq, s.length_stored, s.length_stored, h]
    have hmap := (@reads_bytes true (vs.flatMap s.encode)).map fun bs : Bytes =>
      s.decodeMany ws.length (bs ++ (s.stored ws).drop bs.length)
    rw [List.drop_eq_nil_of_le hlen.le, List.append_nil, h, s.decodeMany_encode, ← h,
      ← hlen] at hmap
    exact hmap

theorem reads_scalars (s : Scalar) (vs : List s.Value) :
    Reads native (scalars s vs.length) (vs.flatMap s.encode) vs := by
  intro i hs hn hp
  rw [scalars_eq, fillScalars_eq, hn]
  exact reads_scalarsOver s List.length_replicate i hs hn hp

theorem reads_vars (t : VarNumber) (vs : List t.Value) :
    Reads native (vars t vs.length) (vs.flatMap (t.encode native)) vs := by
  refine Reads.layout fun i hi => ?_
  rw [hi]
  cases native with
  | true => exact reads_scalars t.scalar vs
  | false => exact reads_times (reads_var t) vs

/-! ## Items -/

/-- **An item is read back from what it is written as.** -/
theorem reads_item (a : Item) (h : ∀ s, a = .string s → (Utf8.encode s).length < 2 ^ 32) :
    Reads native (item a.type) (a.encode native) a := by
  cases a with
  | bool b => exact (reads_bool b).map _
  | u8 v | i8 v => exact (reads_octet v).map _
  | scalar s v => exact (reads_scalar s v).map _
  | var t v => exact (reads_var t v).map _
  | string s => exact (reads_string (h s rfl)).map _
  | scalars s vs => exact Item.encode_scalars native s vs ▸ (reads_scalars s vs).map _
  | vars t vs => exact Item.encode_vars native t vs ▸ (reads_vars t vs).map _

/-- Items are read back in turn, each from where the one before ends. -/
theorem reads_items {as : List Item} (h : ∀ s, .string s ∈ as → (Utf8.encode s).length < 2 ^ 32) :
    Reads native ((as.map Item.type).mapM item) (as.flatMap (Item.encode native)) as := by
  induction as with
  | nil => exact .pure []
  | cons a as ih =>
    rw [List.map_cons, List.mapM_cons, List.flatMap_cons]
    have hfirst := @reads_item native a fun s hs => h s (hs ▸ List.mem_cons_self)
    exact hfirst.bind ((ih fun s hs => h s (List.mem_cons_of_mem a hs)).bind_nil (.pure _))

end Input

/-! ## Sizes -/

namespace Varint

theorem one_le_iff {v m : Nat} (hv : v < 128) : 1 ≤ m ↔ 0 < m ∧ v < 128 ^ m :=
  ⟨fun hm => ⟨hm, hv.trans_le (Nat.le_self_pow (Nat.ne_of_gt hm) 128)⟩, And.left⟩

/-- A number takes so many groups iff they have room for it. -/
theorem length_groups_le_iff {n v m : Nat} (hv : v < 128 ^ (n + 1)) :
    (groups n v).length ≤ m ↔ 0 < m ∧ v < 128 ^ m := by
  induction n generalizing v m with
  | zero => exact one_le_iff hv
  | succ n ih =>
    rw [groups]
    split
    · next hlt => exact one_le_iff hlt
    · next hge =>
      have hdiv : v / 128 < 128 ^ (n + 1) := Nat.div_lt_of_lt_mul (by rwa [← Nat.pow_succ'])
      cases m with
      | zero => simp
      | succ m =>
        rw [List.length_cons, Nat.succ_le_succ_iff, ih hdiv, Nat.div_lt_iff_lt_mul (by decide),
          ← Nat.pow_succ]
        refine and_congr_left fun hlt => iff_of_true ?_ (Nat.succ_pos m)
        -- one group would not do
        exact Nat.pos_of_ne_zero fun hm => hge (by simpa [hm] using hlt)

end Varint

namespace VarNumber

/-- The groups of a width have room for all its numbers. -/
theorem fold_lt_pow (t : VarNumber) (v : t.Value) : t.fold v < 128 ^ Varint.maxBytes t.bits := by
  have hbits : t.bits ≤ 7 * Varint.maxBytes t.bits := by cases t <;> decide
  calc t.fold v < 2 ^ t.bits := t.fold_lt v
    _ ≤ 2 ^ (7 * Varint.maxBytes t.bits) := Nat.pow_le_pow_right (by decide) hbits
    _ = 128 ^ Varint.maxBytes t.bits := Nat.pow_mul ..

/-- **A number takes the least number of groups** that have room for it. -/
theorem length_encode_le_iff (t : VarNumber) (v : t.Value) {m : Nat} :
    (t.encode false v).length ≤ m ↔ 0 < m ∧ t.fold v < 128 ^ m := by
  have hfold := t.fold_lt_pow v
  rw [← Nat.sub_add_cancel t.maxBytes_pos] at hfold
  exact Varint.length_groups_le_iff hfold

theorem length_encode_le (t : VarNumber) (v : t.Value) :
    (t.encode false v).length ≤ Varint.maxBytes t.bits :=
  (t.length_encode_le_iff v).2 ⟨t.maxBytes_pos, t.fold_lt_pow v⟩

/-- No reading of a number consumes fewer bytes than are written for it. -/
theorem length_encode_le_of_var {t : VarNumber} {v : t.Value} {native : Bool} {i i' : Input}
    (hi : i.Held native) (h : Input.var t i = .ok v i') :
    i.total + (t.encode native v).length ≤ i'.total := by
  obtain ⟨n, hworth, -, rfl⟩ := Input.pays_var t i v i' hi h
  show i.passed + i.position + _ ≤ i.passed + (i.position + n)
  rw [← Nat.add_assoc]
  exact Nat.add_le_add_left hworth _

end VarNumber

/-! ## The whole format -/

namespace Input

/-- **Reading undoes writing.**  In both layouts, whatever items an output is made of, texts
    having a length of 32 bits, asking for as many items of the same types brings them back in
    turn from its bytes and consumes these all.  In the compact layout each number of variable
    length takes the fewest bytes whose groups have room for it, no more than five or ten, and
    no reading of it consumes fewer. -/
theorem items_of_puts (native : Bool) {as : List Item}
    (h : ∀ s, .string s ∈ as → (Utf8.encode s).length < 2 ^ 32) :
    let o := as.foldl Output.put (.empty native)
    (∃ i', (as.map Item.type).mapM item ((ofBytes o.bytes).withLayout native) = .ok as i' ∧
      i'.unread = [] ∧ i'.total = o.length) ∧
    ∀ (t : VarNumber) (v : t.Value),
      (∀ n, ((Item.var t v).encode false).length ≤ n ↔ 0 < n ∧ t.fold v < 128 ^ n) ∧
      (∀ i i', i.Held false → var t i = .ok v i' →
        i.total + ((Item.var t v).encode false).length ≤ i'.total) ∧
      (t.bits = 32 ∧ ((Item.var t v).encode false).length ≤ 5 ∨
        t.bits = 64 ∧ ((Item.var t v).encode false).length ≤ 10) := by
  intro o
  have hbytes : o.bytes = as.flatMap (Item.encode native) := Output.bytes_puts as (.empty native)
  have hread := reads_items h ((ofBytes o.bytes).withLayout native) rfl rfl
    (hbytes ▸ List.prefix_refl _)
  refine ⟨⟨_, hread, ?_, ?_⟩, fun t v => ⟨fun n => t.length_encode_le_iff v,
    fun i i' => VarNumber.length_encode_le_of_var, ?_⟩⟩
  · simp [advance, withLayout, ofBytes, hbytes]
  · simp [advance, withLayout, ofBytes, total, Output.length_eq, hbytes]
  · have hle := t.length_encode_le v
    cases t with
    | u32 | i32 => exact Or.inl ⟨rfl, hle⟩
    | u64 | i64 => exact Or.inr ⟨rfl, hle⟩

/-- The least and the greatest numbers of their widths, a NaN with a payload, a text and rows. -/
theorem items_of_puts_limits :
    let as : List Item := [.var .i32 0x80000000, .var .u64 0xffffffffffffffff, .bool true,
      .scalar .f32 0x7fc00001, .string "skein ✓", .scalars .u16 [0xbeef, 0], .vars .i64 []]
    let o := as.foldl Output.put (.empty false)
    (∀ s, .string s ∈ as → (Utf8.encode s).length < 2 ^ 32) ∧
      ∃ i', (as.map Item.type).mapM item ((ofBytes o.bytes).withLayout false) = .ok as i' ∧
        i'.unread = [] := by
  intro as o
  have htexts : ∀ s, .string s ∈ as → (Utf8.encode s).length < 2 ^ 32 := by
    intro s hs
    obtain rfl : s = "skein ✓" := by simpa [as] using hs
    decide
  obtain ⟨⟨i', hread, hend, -⟩, -⟩ := items_of_puts false htexts
  exact ⟨htexts, i', hread, hend⟩

end Input

end GraphWire

/-
  Tables: keys with what they map to.

  Whether two keys are the same depends on the objects that they stand for, so
  every look-up is given a test of the stored keys.

  * `HashTable` maps keys to values; a key that is stored already keeps its
    place and the stored key, and its value is replaced;
  * `LinkedTable` keeps its entries in the order of their first insertion and
    finds them through an index from keys to positions;
  * `LinkedTable.order_insert` and `LinkedTable.find?_eq`: the index changes
    nothing, the entries change and are found as those of a list of pairs
    (`Entries.insert`, `Entries.find?`).
-/

namespace GraphWire

/-- The name of an object: two objects are one iff their names are. -/
abbrev ObjId := Nat

/-- What a field, a key or an entry holds: an object, or null. -/
abbrev Value := Option ObjId

/-- A key and what it maps to. -/
abbrev Entry := Value × Value

/-! ## Lists of pairs -/

namespace Entries

variable {α : Type}

/-- What the first key that passes the test maps to. -/
def find? (test : Value → Bool) : List (Value × α) → Option α
  | [] => none
  | (k, a) :: l => if test k then some a else find? test l

/-- Replaces what the first key that passes the test maps to, or appends the
    pair if there is none; the key that is stored already stays. -/
def insert (test : Value → Bool) (key : Value) (a : α) : List (Value × α) → List (Value × α)
  | [] => [(key, a)]
  | (k, b) :: l => if test k then (k, a) :: l else (k, b) :: insert test key a l

theorem insert_of_find?_eq_none {test : Value → Bool} {key : Value} {a : α}
    {l : List (Value × α)} (h : find? test l = none) : insert test key a l = l ++ [(key, a)] := by
  induction l with
  | nil => rfl
  | cons e l ih =>
    simp only [find?] at h
    split at h
    · cases h
    · next hk => simp [insert, hk, ih h]

theorem length_insert (test : Value → Bool) (key : Value) (a : α) (l : List (Value × α)) :
    (insert test key a l).length = l.length + if (find? test l).isSome then 0 else 1 := by
  induction l with
  | nil => rfl
  | cons e l ih =>
    by_cases h : test e.1
    · simp [insert, find?, h]
    · simp [insert, find?, h, ih]; omega

end Entries

/-! ## Tables in no order -/

/-- Keys with what they map to, in no order that is relied on. -/
structure HashTable (α : Type) where
  slots : List (Value × α)
  deriving DecidableEq, Repr

namespace HashTable

variable {α : Type}

/-- The table without keys. -/
def empty : HashTable α := ⟨[]⟩

/-- What a key that passes the test maps to. -/
def find? (t : HashTable α) (test : Value → Bool) : Option α := Entries.find? test t.slots

/-- Maps the key to `a`; what it mapped to before. -/
def insert (t : HashTable α) (test : Value → Bool) (key : Value) (a : α) :
    Option α × HashTable α :=
  (t.find? test, ⟨Entries.insert test key a t.slots⟩)

end HashTable

/-! ## Tables in the order of first insertion -/

/-- Entries in the order of their first insertion, with the position of every
    key. -/
structure LinkedTable where
  order : List Entry
  index : HashTable Nat
  /-- The index has every key once, with its position. -/
  slots_index : index.slots = (order.map Prod.fst).zipIdx := by rfl
  deriving DecidableEq, Repr

namespace LinkedTable

/-- The table without entries. -/
def empty : LinkedTable := { order := [], index := HashTable.empty }

/-- What a key that passes the test maps to. -/
def find? (t : LinkedTable) (test : Value → Bool) : Option Value :=
  (t.index.find? test).bind fun i => (t.order[i]?).map Prod.snd

/-- Maps the key to a value; what it mapped to before.  A new key comes last. -/
def insert (t : LinkedTable) (test : Value → Bool) (key value : Value) :
    Option Value × LinkedTable :=
  match t.index.find? test with
  | some i =>
    ((t.order[i]?).map Prod.snd,
      { order := t.order.modify i fun e => (e.1, value)
        index := t.index
        slots_index := by
          rw [t.slots_index]
          congr 1
          apply List.ext_getElem?
          intro j
          simp only [List.getElem?_map, List.getElem?_modify]
          split <;> simp [Option.map_map, Function.comp_def] })
  | none =>
    (none,
      { order := t.order ++ [(key, value)]
        index := ⟨t.index.slots ++ [(key, t.order.length)]⟩
        slots_index := by simp [t.slots_index, List.zipIdx_append] })

/-- The index leads to the first entry whose key passes the test. -/
theorem find?_zipIdx (test : Value → Bool) (l : List Entry) (n : Nat) :
    Entries.find? test ((l.map Prod.fst).zipIdx n) =
      (l.findIdx? fun e => test e.1).map (· + n) := by
  induction l generalizing n with
  | nil => rfl
  | cons e l ih =>
    by_cases h : test e.1
    · simp [Entries.find?, List.findIdx?_cons, h]
    · simp [Entries.find?, List.findIdx?_cons, h, ih, Option.map_map, Function.comp_def]
      congr 1
      funext i
      omega

theorem find?_index (t : LinkedTable) (test : Value → Bool) :
    t.index.find? test = t.order.findIdx? fun e => test e.1 := by
  rw [HashTable.find?, t.slots_index, find?_zipIdx]
  simp

theorem find?_getElem (test : Value → Bool) (l : List Entry) :
    ((l.findIdx? fun e => test e.1).bind fun i => (l[i]?).map Prod.snd) = Entries.find? test l := by
  induction l with
  | nil => rfl
  | cons e l ih =>
    by_cases h : test e.1
    · simp [Entries.find?, List.findIdx?_cons, h]
    · simp only [Entries.find?, List.findIdx?_cons, h, ← ih]
      cases l.findIdx? (fun e => test e.1) <;> simp

/-- **A table finds what its list of entries holds.** -/
theorem find?_eq (t : LinkedTable) (test : Value → Bool) :
    t.find? test = Entries.find? test t.order := by
  rw [find?, find?_index, find?_getElem]

theorem modify_findIdx (test : Value → Bool) (key value : Value) (l : List Entry) (i : Nat)
    (h : (l.findIdx? fun e => test e.1) = some i) :
    l.modify i (fun e => (e.1, value)) = Entries.insert test key value l := by
  induction l generalizing i with
  | nil => cases h
  | cons e l ih =>
    by_cases he : test e.1
    · simp only [List.findIdx?_cons, he, if_true, Option.some.injEq] at h
      subst h
      simp [Entries.insert, he]
    · simp only [List.findIdx?_cons, he] at h
      obtain ⟨j, hj, rfl⟩ := Option.map_eq_some_iff.1 h
      simp [Entries.insert, he, ih j hj]

theorem find?_eq_none_of_findIdx (test : Value → Bool) (l : List Entry)
    (h : (l.findIdx? fun e => test e.1) = none) : Entries.find? test l = none := by
  rw [← find?_getElem, h]
  rfl

/-- **A table changes its entries as a list of pairs does.** -/
theorem order_insert (t : LinkedTable) (test : Value → Bool) (key value : Value) :
    (t.insert test key value).2.order = Entries.insert test key value t.order := by
  unfold insert
  split
  · next i h => exact modify_findIdx test key value _ i (t.find?_index test ▸ h)
  · next h =>
    rw [Entries.insert_of_find?_eq_none]
    exact find?_eq_none_of_findIdx test _ (t.find?_index test ▸ h)

/-- **An insertion returns what the key mapped to before.** -/
theorem fst_insert (t : LinkedTable) (test : Value → Bool) (key value : Value) :
    (t.insert test key value).1 = t.find? test := by
  unfold insert find?
  split
  · next i h => simp [h]
  · next h => simp [h]

end LinkedTable

end GraphWire

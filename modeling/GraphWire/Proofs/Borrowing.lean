/-
  Looking at containers while one is being inserted into.

  While a container is being inserted into it must not be looked at; who does is in conflict with
  the insertion.  But an insertion compares keys, and keys lead anywhere, so also back to the
  container.  A comparison asks before it looks whether the entries can be had, and takes the
  containers for unequal if they cannot; it does not ask again for the look-ups that follow.

  * `Heap.compare` compares as `Heap.equal` does, each look at a container being one that may be
    in conflict; it has no result if it gets too deep;
  * `Guarded.Refines`: a computation that goes deeper has the same result, or one more;
  * `Heap.compare_refines`, `Heap.getWithin_refines`, `Heap.insertWithin_refines`: none is ever in
    conflict, and those that have a result have that of `Heap.equal`, `Heap.find?` and
    `Heap.insert`.
-/
import GraphWire.Proofs.Equality
import Mathlib.Data.Finset.Prod
import Mathlib.Order.Monotone.Basic

namespace GraphWire

/-- Why there is no result. -/
inductive Halt where
  /-- The entries of a container are looked at that is being inserted into. -/
  | conflict (o : ObjId)
  /-- The objects within the depth do not settle it. -/
  | tooDeep
  deriving DecidableEq, Repr

/-- What may look at containers. -/
abbrev Guarded := Except Halt

namespace Guarded

variable {α β : Type} {x y z : Guarded α}

/-- Whether a computation does as another, unless it gets too deep before. -/
def Refines (x y : Guarded α) : Prop := x = .error .tooDeep ∨ x = y

theorem Refines.refl (x : Guarded α) : Refines x x := Or.inr rfl

theorem Refines.trans (hxy : Refines x y) (hyz : Refines y z) : Refines x z := by
  rcases hxy with rfl | rfl
  · exact Or.inl rfl
  · exact hyz

theorem Refines.bind {f g : α → Guarded β} (hx : Refines x y) (hf : ∀ a, Refines (f a) (g a)) :
    Refines (x >>= f) (y >>= g) := by
  rcases hx with rfl | rfl
  · exact Or.inl rfl
  · cases x with
    | error e => exact .refl _
    | ok a => exact hf a

/-- What has a result is not in conflict. -/
theorem Refines.ne_conflict {a : α} (hx : Refines x (.ok a)) (o : ObjId) :
    x ≠ .error (.conflict o) := by
  rcases hx with rfl | rfl <;> simp

theorem Refines.allM {f g : α → Guarded Bool} (hf : ∀ a, Refines (f a) (g a)) (l : List α) :
    Refines (l.allM f) (l.allM g) := by
  induction l with
  | nil => exact .refl _
  | cons a l ih =>
    rw [List.allM_cons, List.allM_cons]
    refine (hf a).bind fun b => ?_
    cases b with
    | true => exact ih
    | false => exact .refl _

/-- The position of the first entry whose key passes the test. -/
def position (test : Value → Guarded Bool) : List Entry → Guarded (Option Nat)
  | [] => return none
  | e :: l => do
    if ← test e.1 then return some 0
    return (← position test l).map (· + 1)

theorem Refines.position {f g : Value → Guarded Bool} (hf : ∀ k, Refines (f k) (g k))
    (l : List Entry) : Refines (position f l) (position g l) := by
  induction l with
  | nil => exact .refl _
  | cons e l ih =>
    refine (hf e.1).bind fun b => ?_
    cases b with
    | true => exact .refl _
    | false => exact ih.bind fun _ => .refl _

theorem position_ok {f : Value → Guarded Bool} {test : Value → Bool} {l : List Entry}
    (hf : ∀ e ∈ l, f e.1 = .ok (test e.1)) :
    position f l = .ok (l.findIdx? fun e => test e.1) := by
  induction l with
  | nil => rfl
  | cons e l ih =>
    obtain ⟨he, hl⟩ := List.forall_mem_cons.1 hf
    rw [position, he, ih hl, List.findIdx?_cons]
    cases test e.1 <;> rfl

end Guarded

namespace Heap

open Guarded (Refines)

/-! ## Comparing -/

section

variable (h : Heap) (busy : Option ObjId)

/-- The entries of a container, if they can be had: nothing is being inserted into it. -/
def tryBorrow (o : ObjId) : Option (List Entry) :=
  if busy = some o then none else some (h.entries o)

/-- The entries of a container. -/
def borrow (o : ObjId) : Guarded (List Entry) :=
  if busy = some o then .error (.conflict o) else .ok (h.entries o)

variable (compare : Value → Value → Guarded Bool)

/-- Whether a key is the same as a stored key.  Keys that hash apart are not compared. -/
def probe (k k' : Value) : Guarded Bool :=
  if h.hashInput k = h.hashInput k' then compare k k' else return false

/-- What a key maps to in a container. -/
def lookUp (o : ObjId) (k : Value) : Guarded (Option Value) := do
  let l ← h.borrow busy o
  let i ← Guarded.position (h.probe compare k) l
  return i.bind fun i => (l[i]?).map Prod.snd

/-- Whether a container has a key with an equal value for each entry of a list. -/
def covers (o : ObjId) (l : List Entry) : Guarded Bool :=
  l.allM fun e => do
    match ← h.lookUp busy compare o e.1 with
    | some v => compare e.2 v
    | none => return false

/-- Whether two objects have equal contents. -/
def compareObjects (o p : ObjId) : Guarded Bool :=
  match h.node o, h.node p with
  | .leaf a, .leaf b => return a.equal b
  | .octet a, .octet b => return a == b
  | .container c, .container d =>
    if c.type = d.type then
      match h.tryBorrow busy o, h.tryBorrow busy p with
      | some l, some l' => if l.length = l'.length then h.covers busy compare p l else return false
      | _, _ => return false
    else return false
  | .record fs, .record gs =>
    if fs.length = gs.length then (fs.zip gs).allM fun (v, w) => compare v w else return false
  | _, _ => return false

/-- What a key mapped to in a container, and the entries once it maps to a value. -/
def enter (o : ObjId) (k v : Value) : Guarded (Option Value × List Entry) := do
  let l := h.entries o
  match ← Guarded.position (h.probe compare k) l with
  | some i => return ((l[i]?).map Prod.snd, l.modify i fun e => (e.1, v))
  | none => return (none, l ++ [(k, v)])

end

/-- Whether two values are equal, looking at most `depth` objects deep. -/
def compare (h : Heap) (busy : Option ObjId) : (depth : Nat) → Value → Value → Guarded Bool
  | _, none, none => return true
  | 0, some o, some p => if o = p then return true else .error .tooDeep
  | depth + 1, some o, some p =>
    if o = p then return true else h.compareObjects busy (compare h busy depth) o p
  | _, _, _ => return false

/-- What a key maps to in a container, comparing keys so deep. -/
def getWithin (h : Heap) (depth : Nat) (o : ObjId) (k : Value) : Guarded (Option Value) :=
  h.lookUp none (h.compare none depth) o k

/-- Maps a key to a value in a container, comparing keys so deep. -/
def insertWithin (h : Heap) (depth : Nat) (o : ObjId) (k v : Value) :
    Guarded (Option Value × List Entry) :=
  h.enter (h.compare (some o) depth) o k v

variable {h : Heap} {busy : Option ObjId} {v w k k' : Value} {o p : ObjId} {c : Container}
  {m n : Nat}

/-! ### Going deeper -/

section

variable {f g : Value → Value → Guarded Bool}

theorem probe_refines (hf : ∀ v w, Refines (f v w) (g v w)) :
    Refines (h.probe f k k') (h.probe g k k') := by
  unfold probe
  split
  · exact hf k k'
  · exact .refl _

theorem lookUp_refines (hf : ∀ v w, Refines (f v w) (g v w)) :
    Refines (h.lookUp busy f o k) (h.lookUp busy g o k) :=
  Refines.bind (.refl _) fun l =>
    (Refines.position (fun _ => probe_refines hf) l).bind fun _ => .refl _

theorem enter_refines (hf : ∀ v w, Refines (f v w) (g v w)) :
    Refines (h.enter f o k v) (h.enter g o k v) :=
  (Refines.position (fun _ => probe_refines hf) _).bind fun _ => .refl _

theorem covers_refines (hf : ∀ v w, Refines (f v w) (g v w)) (l : List Entry) :
    Refines (h.covers busy f o l) (h.covers busy g o l) := by
  refine Refines.allM (fun e => (lookUp_refines hf).bind fun x => ?_) l
  cases x with
  | some v => exact hf _ _
  | none => exact .refl _

theorem compareObjects_refines (hf : ∀ v w, Refines (f v w) (g v w)) :
    Refines (h.compareObjects busy f o p) (h.compareObjects busy g o p) := by
  unfold compareObjects
  cases h.node o with
  | leaf | octet => cases h.node p <;> exact .refl _
  | container c =>
    cases h.node p with
    | container d =>
      dsimp only
      split
      · split
        · split
          · exact covers_refines hf _
          · exact .refl _
        · exact .refl _
      · exact .refl _
    | _ => exact .refl _
  | record fs =>
    cases h.node p with
    | record gs =>
      dsimp only
      split
      · exact Refines.allM (fun x : Value × Value => hf x.1 x.2) _
      · exact .refl _
    | _ => exact .refl _

end

theorem compare_succ_refines (n : Nat) (v w : Value) :
    Refines (h.compare busy n v w) (h.compare busy (n + 1) v w) := by
  induction n generalizing v w with
  | zero =>
    cases v with
    | none => cases w <;> exact .refl _
    | some o =>
      cases w with
      | none => exact .refl _
      | some p =>
        simp only [compare]
        split
        · exact .refl _
        · exact Or.inl rfl
  | succ n ih =>
    cases v with
    | none => cases w <;> exact .refl _
    | some o =>
      cases w with
      | none => exact .refl _
      | some p =>
        rw [compare, compare]
        split
        · exact .refl _
        · exact compareObjects_refines ih

/-- A comparison that goes deeper has the same result, or one more. -/
theorem compare_mono (hm : n ≤ m) (v w : Value) :
    Refines (h.compare busy n v w) (h.compare busy m v w) := by
  induction m, hm using Nat.le_induction with
  | base => exact .refl _
  | succ m _ ih => exact ih.trans (compare_succ_refines m v w)

/-! ### No conflict -/

section

variable (eq : Value → Value → Bool)

theorem probe_ok (k k' : Value) : h.probe (fun v w => .ok (eq v w)) k k' =
    .ok (eq k k' && h.hashInput k == h.hashInput k') := by
  unfold probe
  split
  · next hk => simp [hk]
  · next hk => simp [hk, pure, Except.pure]

theorem lookUp_ok (ho : busy ≠ some o) (k : Value) : h.lookUp busy (fun v w => .ok (eq v w)) o k =
    .ok (Entries.find? (fun k' => eq k k' && h.hashInput k == h.hashInput k') (h.entries o)) := by
  let test (k' : Value) : Bool := eq k k' && h.hashInput k == h.hashInput k'
  have htest : ∀ e ∈ h.entries o, h.probe (fun v w => .ok (eq v w)) k e.1 = .ok (test e.1) :=
    fun e _ => probe_ok eq k e.1
  unfold lookUp borrow
  rw [if_neg ho]
  show Guarded.position _ (h.entries o) >>= _ = _
  rw [Guarded.position_ok htest]
  exact congrArg Except.ok (LinkedTable.find?_getElem test (h.entries o))

theorem covers_ok (ho : busy ≠ some o) (l : List Entry) :
    h.covers busy (fun v w => .ok (eq v w)) o l = .ok (l.all fun e =>
      (Entries.find? (fun k' => eq e.1 k' && h.hashInput e.1 == h.hashInput k')
        (h.entries o)).any (eq e.2)) := by
  refine Eq.trans ?_ List.allM_pure
  unfold covers
  congr 1
  funext e
  rw [lookUp_ok eq ho]
  cases Entries.find? _ (h.entries o) <;> rfl

theorem equalContainers_eq (c d : Container) : h.equalContainers eq c d =
    (c.type == d.type && c.entries.length == d.entries.length && c.entries.all fun e =>
      (Entries.find? (fun k' => eq e.1 k' && h.hashInput e.1 == h.hashInput k') d.entries).any
        (eq e.2)) := by
  unfold equalContainers
  congr 2
  funext e
  rw [← d.find?_eq]
  dsimp only
  cases d.find? _ <;> rfl

/-- **Objects are compared without conflict.**  The look-ups in the second container follow only
    where its entries could be had. -/
theorem compareObjects_ok (o p : ObjId) : h.compareObjects busy (fun v w => .ok (eq v w)) o p =
    .ok (h.equalObjects busy eq o p) := by
  unfold compareObjects equalObjects
  cases hc : h.node o with
  | leaf | octet => cases h.node p <;> rfl
  | container c =>
    cases hd : h.node p with
    | container d =>
      simp only [equalContainers_eq]
      by_cases ho : busy = some o
      · simp [tryBorrow, ho, pure, Except.pure]
      by_cases hp : busy = some p
      · simp [tryBorrow, hp, pure, Except.pure]
      by_cases ht : c.type = d.type
      · by_cases hl : c.entries.length = d.entries.length
        · have hidle : (busy != some o && busy != some p) = true := by simp [ho, hp]
          simp only [tryBorrow, if_neg ho, if_neg hp, entries_of_node hc, entries_of_node hd, ht,
            hl, if_true, covers_ok eq hp, hidle, beq_self_eq_true, Bool.true_and]
        · simp [tryBorrow, ho, hp, ht, hl, entries_of_node hc, entries_of_node hd, pure,
            Except.pure]
      · simp [ht, pure, Except.pure]
    | _ => rfl
  | record fs =>
    cases h.node p with
    | record gs =>
      by_cases hl : fs.length = gs.length
      · simp only [hl, if_true, beq_self_eq_true, Bool.true_and]
        exact List.allM_pure
      · simp [hl, pure, Except.pure]
    | _ => rfl

theorem enter_ok (hc : h.node o = .container c) {f : Value → Value → Guarded Bool}
    {test : Value → Bool} (hf : ∀ e ∈ c.entries, h.probe f k e.1 = .ok (test e.1)) :
    h.enter f o k v =
      .ok (Entries.find? test c.entries, Entries.insert test k v c.entries) := by
  rw [enter, entries_of_node hc, ← LinkedTable.find?_getElem]
  show Guarded.position _ c.entries >>= _ = _
  rw [Guarded.position_ok hf]
  cases hi : c.entries.findIdx? fun e => test e.1 with
  | some i =>
    rw [← LinkedTable.modify_findIdx test k v _ i hi]
    rfl
  | none =>
    rw [Entries.insert_of_find?_eq_none (LinkedTable.find?_eq_none_of_findIdx test _ hi)]
    rfl

end

/-- **A comparison is never in conflict**, and its result is what is found as deep. -/
theorem compare_refines_equalTo (hm : n ≤ m) (v w : Value) :
    Refines (h.compare busy n v w) (.ok (h.equalTo busy m v w)) := by
  induction n generalizing m v w with
  | zero =>
    cases v with
    | none => cases w <;> cases m <;> exact .refl _
    | some o =>
      cases w with
      | none => cases m <;> exact .refl _
      | some p =>
        rw [compare]
        split
        · next hop =>
          cases m <;> simp [hop, equalTo, pure, Except.pure, Refines.refl]
        · exact Or.inl rfl
  | succ n ih =>
    obtain ⟨m, rfl⟩ : ∃ j, m = j + 1 := ⟨m - 1, by omega⟩
    cases v with
    | none => cases w <;> exact .refl _
    | some o =>
      cases w with
      | none => exact .refl _
      | some p =>
        rw [compare, equalTo]
        split
        · next hop => simp [hop, pure, Except.pure, Refines.refl]
        · next hop =>
          have hobjects : Refines (h.compareObjects busy (h.compare busy n) o p) _ :=
            compareObjects_refines fun v w => ih (Nat.le_of_succ_le_succ hm) v w
          rw [compareObjects_ok] at hobjects
          rwa [beq_false_of_ne hop, Bool.false_or]

/-! ### Deep enough

Going one level deeper settles more pairs of objects, or no more ever. -/

/-- An object without a name is a leaf, and leaves are compared as they are. -/
theorem compareObjects_of_size_le {f g : Value → Value → Guarded Bool}
    (hop : h.size ≤ o ∨ h.size ≤ p) :
    h.compareObjects busy f o p = h.compareObjects busy g o p := by
  unfold compareObjects
  rcases hop with ho | hp
  · rw [node_of_size_le ho]
    cases h.node p <;> rfl
  · rw [node_of_size_le hp]
    cases h.node o <;> rfl

/-- The pairs of objects whose comparison so deep has a result. -/
def settledPairs (h : Heap) (busy : Option ObjId) (depth : Nat) : Finset (ObjId × ObjId) :=
  (Finset.range h.size ×ˢ Finset.range h.size).filter fun q =>
    h.compare busy depth (some q.1) (some q.2) ≠ .error .tooDeep

theorem settledPairs_subset (hm : n ≤ m) : h.settledPairs busy n ⊆ h.settledPairs busy m := by
  refine Finset.monotone_filter_right _ fun q _ hq hdeep => hq ?_
  exact (compare_mono hm _ _).elim id fun he => he.trans hdeep

/-- Where no more pairs are settled, all comparisons have the results that they had. -/
theorem compare_eq_of_settledPairs (hm : n ≤ m)
    (he : h.settledPairs busy (n + 1) = h.settledPairs busy (m + 1)) :
    h.compare busy (n + 1) = h.compare busy (m + 1) := by
  funext v w
  refine (compare_mono (Nat.succ_le_succ hm) v w).elim (fun hdeep => ?_) id
  cases v with
  | none => cases w <;> rfl
  | some o =>
    cases w with
    | none => rfl
    | some p =>
      by_cases hop : h.size ≤ o ∨ h.size ≤ p
      · rw [compare, compare, compareObjects_of_size_le hop]
      · obtain ⟨ho, hp⟩ := not_or.1 hop
        have hlt : o < h.size ∧ p < h.size := ⟨Nat.lt_of_not_le ho, Nat.lt_of_not_le hp⟩
        have hout : (o, p) ∉ h.settledPairs busy (n + 1) := by simp [settledPairs, hdeep]
        rw [he] at hout
        have hdeep' : h.compare busy (m + 1) (some o) (some p) = .error .tooDeep := by
          simpa [settledPairs, hlt] using hout
        rw [hdeep, hdeep']

theorem card_settledPairs_le (n : Nat) : (h.settledPairs busy n).card ≤ h.size * h.size := by
  refine (Finset.card_filter_le _ _).trans ?_
  rw [Finset.card_product, Finset.card_range]

/-- **Comparisons that have a result have it within the bound.** -/
theorem compare_eq_of_depthBound_le (hn : h.depthBound ≤ n) :
    h.compare busy n = h.compare busy h.depthBound := by
  have hbound : h.size * h.size < h.depthBound :=
    Nat.mul_self_lt_mul_self (Nat.lt_succ_self h.size)
  let f (n : Nat) : Nat := (h.settledPairs busy (n + 1)).card
  have hmono : Monotone f := fun n m hm =>
    Finset.card_le_card (settledPairs_subset (Nat.succ_le_succ hm))
  have hsame : ∀ n m, n ≤ m → f n = f m →
      h.settledPairs busy (n + 1) = h.settledPairs busy (m + 1) := fun n m hm hf =>
    Finset.eq_of_subset_of_card_le (settledPairs_subset (Nat.succ_le_succ hm)) hf.ge
  have hstep : ∀ n, f n = f (n + 1) → f (n + 1) = f (n + 2) := by
    intro n hf
    have he := compare_eq_of_settledPairs (Nat.le_succ n) (hsame n _ (Nat.le_succ n) hf)
    have hnext : h.compare busy (n + 2) = h.compare busy (n + 3) := by
      funext v w
      cases v <;> cases w <;> simp only [compare, he]
    simp only [f, settledPairs, hnext]
  have hstable : ∀ m, h.size * h.size ≤ m →
      h.compare busy (h.size * h.size + 1) = h.compare busy (m + 1) := by
    intro m hm
    have hf := Nat.stabilises_of_monotone hmono (fun m => card_settledPairs_le _) hstep hm
    exact compare_eq_of_settledPairs hm (hsame _ m hm hf.symm)
  obtain ⟨m, hm⟩ := h.depthBound_pos
  obtain ⟨n, rfl⟩ : ∃ j, n = j + 1 := ⟨n - 1, by omega⟩
  rw [hm, ← hstable n (by omega), hstable m (by omega)]

/-! ## No conflict -/

/-- **A comparison is never in conflict, and its result is that of `Heap.equal`**, whichever
    container is being inserted into. -/
theorem compare_refines (n : Nat) (v w : Value) :
    Refines (h.compare busy n v w) (.ok (h.equal busy v w)) := by
  have hbound : Refines (h.compare busy n v w) (h.compare busy h.depthBound v w) := by
    rcases Nat.le_total n h.depthBound with hn | hn
    · exact compare_mono hn v w
    · rw [compare_eq_of_depthBound_le hn]
      exact .refl _
  exact hbound.trans (compare_refines_equalTo le_rfl v w)

/-- **A look-up is never in conflict, and its result is that of `Heap.find?`.** -/
theorem getWithin_refines (n : Nat) (o : ObjId) (k : Value) :
    Refines (h.getWithin n o k) (.ok (h.find? o k)) := by
  have hfind : h.find? o k = Entries.find? (h.sameKey none k) (h.entries o) := by
    unfold find? container? entries
    cases h.node o with
    | container c => exact c.find?_eq _
    | _ => rfl
  rw [hfind]
  have hget : Refines (h.getWithin n o k) _ := lookUp_refines fun v w => compare_refines n v w
  rwa [lookUp_ok (h.equal none) (by simp)] at hget

theorem lt_size_of_container (hc : h.node o = .container c) : o < h.size := by
  by_contra hge
  rw [node_of_size_le (Nat.le_of_not_lt hge)] at hc
  cases hc

/-- **An insertion is never in conflict, and its result is that of `Heap.insert`.** -/
theorem insertWithin_refines (hc : h.node o = .container c) (n : Nat) (k v : Value) :
    Refines (h.insertWithin n o k v)
      (.ok ((h.insert o k v).1, (h.insert o k v).2.entries o)) := by
  have hfst : (h.insert o k v).1 = Entries.find? (h.sameKey (some o) k) c.entries := by
    simp [insert, hc, c.fst_insert, c.find?_eq]
  rw [hfst, entries_insert_self k v hc (lt_size_of_container hc)]
  have htest : ∀ e ∈ c.entries, h.probe (fun v w => .ok (h.equal (some o) v w)) k e.1 =
      .ok (h.sameKey (some o) k e.1) := fun e _ => probe_ok _ k e.1
  have hinsert : Refines (h.insertWithin n o k v) _ :=
    enter_refines fun v w => compare_refines n v w
  rwa [enter_ok hc htest] at hinsert

end Heap

end GraphWire

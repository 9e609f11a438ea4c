/-
  Containers among their own keys.

  A key is filed under the hash that it has when it is stored, and looked for under the hash that
  it has when it is asked for.  Of a container only the type enters its hash, so that a key is
  found however the objects change that it leads to, the container itself among them.

  * `Filed`: a heap with the hashes that the keys of its containers are filed under, all look-ups
    going by these; `Filed.Step` is what can happen to it;
  * `Heap.Ages`: what this leaves as it is, the hashes of all that can be a key among it
    (`Heap.Ages.hashInput_eq`);
  * `Filed.Orderly`: keys are filed under the hashes that they have;
  * `Filed.sound_of_reached`: insertions and look-ups are never in conflict, a container that is
    inserted into is equal to itself only, and so is stored once among its own keys, and every
    key that is stored is found.
-/
import GraphWire.Proofs.Agreement
import GraphWire.Proofs.Borrowing

namespace GraphWire

/-- A heap and the hashes that the keys of each container are filed under, in their order. -/
structure Filed where
  heap : Heap
  hashes : ObjId → List HashInput

namespace Filed

/-- The heap without objects. -/
def start : Filed := ⟨.empty, fun _ => []⟩

variable (s : Filed)

/-- Whether a key of a container is filed under a hash. -/
def filedUnder (o : ObjId) (k : Value) (x : HashInput) : Bool :=
  ((s.heap.entries o).zip (s.hashes o)).any fun y => y.1.1 == k && y.2 == x

/-- Whether a key is the same as a key that is stored in a container. -/
def sameKey (busy : Option ObjId) (o : ObjId) (k k' : Value) : Bool :=
  s.heap.equal busy k k' && s.filedUnder o k' (s.heap.hashInput k)

/-- What a key maps to in a container, if the object is one. -/
def find? (o : ObjId) (k : Value) : Option Value :=
  (s.heap.container? o).bind fun c => c.find? (s.sameKey none o k)

/-- Maps a key to a value in a container; what it mapped to before. -/
def insert (o : ObjId) (k v : Value) : Option Value × Filed :=
  match s.heap.node o with
  | .container c =>
    let (old, c') := c.insert (s.sameKey (some o) o k) k v
    (old, { heap := s.heap.set o (.container c')
            hashes := if old = none
              then Function.update s.hashes o (s.hashes o ++ [s.heap.hashInput k])
              else s.hashes })
  | _ => (none, s)

end Filed

/-- Whether a value is null or an object that there is. -/
def Heap.Present (h : Heap) (v : Value) : Prop := ∀ o, v = some o → o < h.size

/-- What can happen to a heap: an object is made, a container without entries, a record gets a
    field or another value for one, or a container gets an entry or another value for a key. -/
inductive Filed.Step : Filed → Filed → Prop
  | alloc {s : Filed} (n : Node) : (∀ c, n = .container c → c = .empty c.type) →
      Step s { s with heap := (s.heap.alloc n).2 }
  | addField {s : Filed} (o : ObjId) (v : Value) : Step s { s with heap := s.heap.addField o v }
  | setField {s : Filed} {h' : Heap} (o : ObjId) (i : Nat) (v : Value) :
      s.heap.setField? o i v = some h' → Step s { s with heap := h' }
  | insert {s : Filed} {c : Container} (o : ObjId) (k v : Value) :
      s.heap.node o = .container c → s.heap.Present k → Step s (s.insert o k v).2

/-- What a heap may become. -/
abbrev Filed.Later : Filed → Filed → Prop := Relation.ReflTransGen Filed.Step

/-- Whether a heap can be made from nothing. -/
abbrev Filed.Reached (s : Filed) : Prop := Filed.Later .start s

/-! ## What does not change -/

namespace Entries

variable {test : Value → Bool} {l : List Entry} {k v : Value}

/-- Keys stay where they are. -/
theorem keys_prefix_insert (test : Value → Bool) (k v : Value) (l : List Entry) :
    l.map Prod.fst <+: (insert test k v l).map Prod.fst := by
  cases hf : find? test l with
  | some x => rw [map_fst_insert (by simp [hf])]
  | none =>
    rw [insert_of_find?_eq_none hf, List.map_append]
    exact List.prefix_append _ _

/-- The first key that passes is found where it was. -/
theorem find?_insert_self (hk : test k = true) : find? test (insert test k v l) = some v := by
  induction l with
  | nil => simp [insert, find?, hk]
  | cons e l ih =>
    by_cases he : test e.1 = true
    · simp [insert, find?, he]
    · simp [insert, find?, he, ih]

/-- What is found is what the first key maps to that passes, no later than any that does. -/
theorem exists_first {i : Nat} {e : Entry} (hi : l[i]? = some e) (he : test e.1 = true) :
    ∃ j ≤ i, ∃ e', l[j]? = some e' ∧ test e'.1 = true ∧ find? test l = some e'.2 ∧
      ∀ x ∈ l.take j, test x.1 = false := by
  induction l generalizing i with
  | nil => cases hi
  | cons x l ih =>
    by_cases hx : test x.1 = true
    · exact ⟨0, Nat.zero_le i, x, rfl, hx, by simp [find?, hx], by simp⟩
    · cases i with
      | zero =>
        cases hi
        exact absurd he hx
      | succ i =>
        obtain ⟨j, hj, e', hje, he', hf, hbefore⟩ := ih hi
        refine ⟨j + 1, Nat.succ_le_succ hj, e', hje, he', by simpa [find?, hx] using hf, ?_⟩
        rw [List.take_succ_cons]
        exact List.forall_mem_cons.2 ⟨Bool.eq_false_of_not_eq_true hx, hbefore⟩

theorem insert_congr {test' : Value → Bool} (h : ∀ e ∈ l, test e.1 = test' e.1) :
    insert test k v l = insert test' k v l := by
  induction l with
  | nil => rfl
  | cons e l ih =>
    obtain ⟨he, hl⟩ := List.forall_mem_cons.1 h
    simp only [insert, he, ih hl]

end Entries

/-- An insertion looks at the keys of the container only. -/
theorem Container.insert_congr {c : Container} {test test' : Value → Bool}
    (h : ∀ e ∈ c.entries, test e.1 = test' e.1) (k v : Value) :
    c.insert test k v = c.insert test' k v := by
  have htable : ∀ t : LinkedTable, (∀ e ∈ t.order, test e.1 = test' e.1) →
      t.insert test k v = t.insert test' k v := by
    intro t ht
    have hindex : t.index.find? test = t.index.find? test' := by
      refine Entries.find?_congr fun x hx => ?_
      rw [t.slots_index] at hx
      obtain ⟨e, he, hex⟩ := List.mem_map.1 (List.fst_mem_of_mem_zipIdx hx)
      rw [← hex, ht e he]
    simp only [LinkedTable.insert, hindex]
  cases c with
  | hash t =>
    have hslots : ∀ e ∈ t.slots, test e.1 = test' e.1 := h
    have hinsert : t.insert test k v = t.insert test' k v := by
      unfold HashTable.insert HashTable.find?
      rw [Entries.find?_congr hslots, Entries.insert_congr hslots]
    simp only [insert, hinsert]
  | linked t | named _ t => simp only [insert, htable t h]

/-- How an object can change: a container gets more keys behind its own, a record stays one. -/
inductive Node.Ages : Node → Node → Prop
  | refl (n : Node) : Ages n n
  | container {c d : Container} : d.type = c.type →
      c.entries.map Prod.fst <+: d.entries.map Prod.fst → Ages (.container c) (.container d)
  | record (fs gs : List Value) : Ages (.record fs) (.record gs)

theorem Node.Ages.trans {n n₁ n₂ : Node} (h : n.Ages n₁) (h' : n₁.Ages n₂) : n.Ages n₂ := by
  cases h with
  | refl => exact h'
  | container ht hk =>
    cases h' with
    | refl => exact .container ht hk
    | container ht' hk' => exact .container (ht'.trans ht) (hk.trans hk')
  | record fs gs =>
    cases h' with
    | refl => exact .record fs gs
    | record _ gs' => exact .record fs gs'

namespace Heap

variable {h h' h₁ : Heap} {o p : ObjId} {c : Container} {v : Value}

/-- Whether all objects of a heap are there in another, changed as objects can change. -/
structure Ages (h h' : Heap) : Prop where
  size : h.size ≤ h'.size
  node : ∀ o < h.size, (h.node o).Ages (h'.node o)

theorem Ages.refl (h : Heap) : h.Ages h := ⟨le_rfl, fun _ _ => .refl _⟩

theorem Ages.trans (ha : h.Ages h₁) (ha' : h₁.Ages h') : h.Ages h' where
  size := ha.size.trans ha'.size
  node o ho := (ha.node o ho).trans (ha'.node o (ho.trans_le ha.size))

theorem Present.later (hv : h.Present v) (ha : h.Ages h') : h'.Present v :=
  fun o ho => (hv o ho).trans_le ha.size

/-- **The hash of a value does not change.** -/
theorem Ages.hashInput_eq (ha : h.Ages h') (hv : h.Present v) : h'.hashInput v = h.hashInput v := by
  cases v with
  | none => rfl
  | some o =>
    have hnode := ha.node o (hv o rfl)
    simp only [hashInput]
    generalize h.node o = n at hnode
    generalize h'.node o = n' at hnode
    cases hnode with
    | refl | record => rfl
    | @container c d ht => cases c <;> cases d <;> first | rfl | cases ht

/-- A key stays where it is. -/
theorem Ages.keys (ha : h.Ages h') (o : ObjId) :
    (h.entries o).map Prod.fst <+: (h'.entries o).map Prod.fst := by
  by_cases ho : o < h.size
  · have hnode := ha.node o ho
    unfold entries
    generalize h.node o = n at hnode
    generalize h'.node o = n' at hnode
    cases hnode with
    | refl => exact List.prefix_rfl
    | container _ hk => exact hk
    | record => exact List.nil_prefix
  · rw [entries_of_size_le (Nat.le_of_not_lt ho)]
    exact List.nil_prefix

theorem Ages.exists_container (ha : h.Ages h') (hc : h.node o = .container c) :
    ∃ d, h'.node o = .container d := by
  have hnode := ha.node o (lt_size_of_container hc)
  rw [hc] at hnode
  generalize h'.node o = n at hnode
  cases hnode with
  | refl => exact ⟨c, rfl⟩
  | @container _ d => exact ⟨d, rfl⟩

theorem entries_set_record {fs : List Value} (hfs : h.node o = .record fs) (gs : List Value)
    (p : ObjId) : (h.set o (.record gs)).entries p = h.entries p := by
  by_cases hpo : p = o
  · subst hpo
    by_cases hp : p < h.size
    · simp [entries, hfs, node_set_self _ hp]
    · rw [entries_of_size_le (Nat.le_of_not_lt hp), entries_of_size_le (by simpa using hp)]
  · exact entries_congr (node_set_of_ne _ hpo)

/-- Another state of a record is all that comes of a new field, if anything does. -/
theorem addField_cases (h : Heap) (o : ObjId) (v : Value) : h.addField o v = h ∨
    ∃ fs gs, h.node o = .record fs ∧ h.addField o v = h.set o (.record gs) := by
  unfold addField
  split
  · next fs hfs => exact Or.inr ⟨fs, _, hfs, rfl⟩
  · exact Or.inl rfl

theorem exists_record_of_setField? {i : Nat} (hs : h.setField? o i v = some h') :
    ∃ fs gs, h.node o = .record fs ∧ h' = h.set o (.record gs) := by
  unfold setField? at hs
  split at hs
  · next fs hfs =>
    split at hs
    · cases hs
      exact ⟨fs, _, hfs, rfl⟩
    · cases hs
  · cases hs

theorem ages_set {n : Node} (hn : (h.node o).Ages n) : h.Ages (h.set o n) where
  size := (size_set h o n).ge
  node p hp := by
    by_cases hpo : p = o
    · subst hpo
      rwa [node_set_self n hp]
    · rw [node_set_of_ne n hpo]
      exact .refl _

end Heap

namespace Filed

variable {s s' : Filed} {o : ObjId} {k v w : Value} {c : Container} {busy : Option ObjId}

theorem insert_of_container (hc : s.heap.node o = .container c) (k v : Value) :
    s.insert o k v = ((c.insert (s.sameKey (some o) o k) k v).1,
      { heap := s.heap.set o (.container (c.insert (s.sameKey (some o) o k) k v).2)
        hashes := if (c.insert (s.sameKey (some o) o k) k v).1 = none
          then Function.update s.hashes o (s.hashes o ++ [s.heap.hashInput k])
          else s.hashes }) := by
  simp [insert, hc]

/-- **What happens to a heap changes its objects as objects can change.** -/
theorem Step.ages (hs : s.Step s') : s.heap.Ages s'.heap := by
  cases hs with
  | alloc n =>
    refine ⟨by simp, fun o ho => ?_⟩
    show (s.heap.node o).Ages ((s.heap.alloc n).2.node o)
    rw [Heap.node_alloc_of_lt n ho]
    exact .refl _
  | addField o v =>
    show s.heap.Ages (s.heap.addField o v)
    rcases s.heap.addField_cases o v with hsame | ⟨fs, gs, hfs, hset⟩
    · rw [hsame]
      exact .refl _
    · rw [hset]
      exact Heap.ages_set (hfs ▸ .record fs gs)
  | setField o i v hset =>
    obtain ⟨fs, gs, hfs, rfl⟩ := Heap.exists_record_of_setField? hset
    exact Heap.ages_set (hfs ▸ .record fs gs)
  | insert o k v hc =>
    rw [insert_of_container hc]
    refine Heap.ages_set ?_
    rw [hc]
    refine .container (Container.type_insert ..) ?_
    rw [Container.entries_insert]
    exact Entries.keys_prefix_insert ..

theorem Later.ages (hs : s.Later s') : s.heap.Ages s'.heap := by
  induction hs with
  | refl => exact .refl _
  | tail _ hstep ih => exact ih.trans hstep.ages

/-! ## Keys under their hashes -/

/-- Whether each key is an object that there is, and filed under the hash that it has. -/
structure Orderly (s : Filed) : Prop where
  present : ∀ o, ∀ e ∈ s.heap.entries o, s.heap.Present e.1
  hashes : ∀ o, s.hashes o = (s.heap.entries o).map fun e => s.heap.hashInput e.1

theorem Orderly.filedUnder_iff (hs : s.Orderly) {x : HashInput} : s.filedUnder o k x = true ↔
    ∃ e ∈ s.heap.entries o, e.1 = k ∧ s.heap.hashInput k = x := by
  rw [filedUnder, hs.hashes, ← List.map_prod_left_eq_zip, List.any_map, List.any_eq_true]
  refine exists_congr fun e => and_congr_right fun _ => ?_
  simp only [Function.comp_apply, Bool.and_eq_true, beq_iff_eq]
  exact and_congr_right fun hk => by rw [hk]

/-- Look-ups by the hashes that keys are filed under are look-ups by the hashes that they have. -/
theorem Orderly.sameKey_eq (hs : s.Orderly) {e : Entry} (he : e ∈ s.heap.entries o) :
    s.sameKey busy o k e.1 = s.heap.sameKey busy k e.1 := by
  rw [Bool.eq_iff_iff, sameKey, Bool.and_eq_true, hs.filedUnder_iff, Heap.sameKey_iff]
  refine and_congr_right fun _ => ⟨?_, fun hx => ⟨e, he, rfl, hx.symm⟩⟩
  rintro ⟨_, -, -, hx⟩
  exact hx.symm

theorem Orderly.find?_eq (hs : s.Orderly) (o : ObjId) (k : Value) :
    s.find? o k = s.heap.find? o k := by
  unfold find? Heap.find? Heap.container?
  cases hc : s.heap.node o with
  | container c =>
    show c.find? _ = c.find? _
    rw [c.find?_eq, c.find?_eq]
    exact Entries.find?_congr fun e he => hs.sameKey_eq (Heap.entries_of_node hc ▸ he)
  | _ => rfl

theorem Orderly.insert_eq (hs : s.Orderly) (o : ObjId) (k v : Value) :
    (s.insert o k v).1 = (s.heap.insert o k v).1 ∧
      (s.insert o k v).2.heap = (s.heap.insert o k v).2 := by
  cases hc : s.heap.node o with
  | container c =>
    rw [insert_of_container hc, Heap.insert, hc, Container.insert_congr fun e he =>
      hs.sameKey_eq (Heap.entries_of_node hc ▸ he)]
    exact ⟨rfl, rfl⟩
  | _ => simp [insert, Heap.insert, hc]

/-- Keys that stay where they are stay under their hashes. -/
theorem Orderly.of_entries (hs : s.Orderly) {h' : Heap} (ha : s.heap.Ages h')
    (he : ∀ o, h'.entries o = s.heap.entries o) : Orderly { s with heap := h' } where
  present o e hm := (hs.present o e (he o ▸ hm)).later ha
  hashes o := by
    show s.hashes o = (h'.entries o).map fun e => h'.hashInput e.1
    rw [he, hs.hashes]
    exact List.map_congr_left fun e hm => (ha.hashInput_eq (hs.present o e hm)).symm

/-- **A key is stored under its hash.** -/
theorem Orderly.insert (hs : s.Orderly) (hc : s.heap.node o = .container c)
    (hk : s.heap.Present k) (v : Value) : (s.insert o k v).2.Orderly := by
  have ha : s.heap.Ages (s.insert o k v).2.heap := (Step.insert o k v hc hk).ages
  have hother : ∀ p, p ≠ o → (s.insert o k v).2.heap.entries p = s.heap.entries p ∧
      (s.insert o k v).2.hashes p = s.hashes p := by
    intro p hp
    rw [insert_of_container hc]
    refine ⟨Heap.entries_congr (Heap.node_set_of_ne _ hp), ?_⟩
    dsimp only
    split
    · exact Function.update_of_ne hp _ _
    · rfl
  have hself : (s.insert o k v).2.heap.entries o =
      Entries.insert (s.sameKey (some o) o k) k v (s.heap.entries o) := by
    rw [insert_of_container hc, Heap.entries_of_node hc, ← Container.entries_insert]
    exact Heap.entries_of_node (Heap.node_set_self _ (Heap.lt_size_of_container hc))
  have hpresent : ∀ p, ∀ e ∈ (s.insert o k v).2.heap.entries p, s.heap.Present e.1 := by
    intro p e he
    by_cases hp : p = o
    · subst hp
      rw [hself] at he
      rcases (Entries.mem_insert he).1 with hek | ⟨e', he', hek⟩
      · exact hek ▸ hk
      · exact hek ▸ hs.present p e' he'
    · exact hs.present p e ((hother p hp).1 ▸ he)
  refine ⟨fun p e he => (hpresent p e he).later ha, fun p => ?_⟩
  have hsame : ∀ e ∈ (s.insert o k v).2.heap.entries p,
      (s.insert o k v).2.heap.hashInput e.1 = s.heap.hashInput e.1 := fun e he =>
    ha.hashInput_eq (hpresent p e he)
  rw [List.map_congr_left hsame]
  by_cases hp : p = o
  · subst hp
    rw [hself, insert_of_container hc]
    dsimp only
    rw [c.fst_insert, c.find?_eq, ← Heap.entries_of_node hc]
    by_cases hf : Entries.find? (s.sameKey (some p) p k) (s.heap.entries p) = none
    · rw [if_pos hf, Function.update_self, hs.hashes, Entries.insert_of_find?_eq_none hf]
      simp
    · have hkeys := Entries.map_fst_insert (k := k) (a := v) hf
      rw [if_neg hf, hs.hashes]
      simpa [Function.comp_def] using congrArg (List.map s.heap.hashInput) hkeys.symm
  · rw [(hother p hp).1, (hother p hp).2, hs.hashes]

/-- **Whatever happens, keys stay under their hashes.** -/
theorem Step.orderly (hstep : s.Step s') (hs : s.Orderly) : s'.Orderly := by
  have ha := hstep.ages
  cases hstep with
  | alloc n hn =>
    refine hs.of_entries ha fun o => Heap.entries_alloc (fun c hc => ?_) o
    rw [hn c hc, Container.entries_empty]
  | addField o v =>
    refine hs.of_entries ha fun p => ?_
    rcases s.heap.addField_cases o v with hsame | ⟨fs, gs, hfs, hset⟩
    · rw [hsame]
    · rw [hset, Heap.entries_set_record hfs]
  | setField o i v hset =>
    obtain ⟨fs, gs, hfs, rfl⟩ := Heap.exists_record_of_setField? hset
    exact hs.of_entries ha fun p => Heap.entries_set_record hfs gs p
  | insert o k v hc hk => exact hs.insert hc hk v

theorem Later.orderly (hlater : s.Later s') (hs : s.Orderly) : s'.Orderly := by
  induction hlater with
  | refl => exact hs
  | tail _ hstep ih => exact hstep.orderly ih

theorem orderly_start : start.Orderly := by
  have hnone : ∀ o, start.heap.entries o = [] := fun o => Heap.entries_of_size_le (Nat.zero_le o)
  refine ⟨fun o e he => ?_, fun o => ?_⟩
  · rw [hnone] at he
    cases he
  · rw [hnone]
    rfl

end Filed

/-! ## Containers as their own keys -/

namespace Heap

variable {h : Heap} {o p : ObjId} {c : Container} {v : Value}

/-- **While a container is being inserted into, it is equal to no other object.** -/
theorem compare_own (hc : h.node o = .container c) (hp : p ≠ o) (n : Nat) :
    h.compare (some o) (n + 1) (some o) (some p) = .ok false ∧
      h.compare (some o) (n + 1) (some p) (some o) = .ok false := by
  rw [compare, compare, if_neg hp.symm, if_neg hp, compareObjects, compareObjects, hc]
  constructor
  · cases h.node p with
    | container d => simp [tryBorrow, pure, Except.pure]
    | _ => rfl
  · cases h.node p with
    | container d => simp [tryBorrow, hp.symm, pure, Except.pure]
    | _ => rfl

/-- As a key, it is the same as itself only. -/
theorem probe_own (hc : h.node o = .container c) (n : Nat) (k : Value) :
    h.probe (h.compare (some o) (n + 1)) (some o) k = .ok (k == some o) := by
  unfold probe
  cases k with
  | none => split <;> rfl
  | some p =>
    by_cases hp : p = o
    · subst hp
      simp [compare, pure, Except.pure]
    · have hne : (some p == some o) = false := by simp [hp]
      rw [hne, (compare_own hc hp n).1]
      split <;> rfl

/-- **To insert a container into itself always has a result**: its entry as a key is replaced,
    or comes last. -/
theorem insertWithin_own (hc : h.node o = .container c) (n : Nat) (v : Value) :
    h.insertWithin (n + 1) o (some o) v = .ok (Entries.find? (· == some o) (h.entries o),
      Entries.insert (· == some o) (some o) v (h.entries o)) := by
  rw [entries_of_node hc]
  exact enter_ok hc fun e _ => probe_own hc n e.1

theorem insert_own (hc : h.node o = .container c) (v : Value) :
    (h.insert o (some o) v).1 = Entries.find? (· == some o) (h.entries o) ∧
      (h.insert o (some o) v).2.entries o =
        Entries.insert (· == some o) (some o) v (h.entries o) := by
  have hok := (insertWithin_refines hc 1 (some o) v).resolve_left (by simp [insertWithin_own hc])
  rw [insertWithin_own hc] at hok
  exact (Prod.mk.inj (Except.ok.inj hok.symm))

end Heap

namespace Filed

open Guarded (Refines)

variable {s s' : Filed} {o : ObjId} {v w : Value} {c : Container}

/-- What holds of a container, whatever its keys lead to. -/
structure Sound (s : Filed) (o : ObjId) : Prop where
  /-- No comparison is in conflict, whatever is being inserted into, and none ends otherwise. -/
  compare : ∀ busy depth v w,
    Refines (s.heap.compare busy depth v w) (.ok (s.heap.equal busy v w))
  /-- No look-up is in conflict, and none finds anything else. -/
  get : ∀ depth k, Refines (s.heap.getWithin depth o k) (.ok (s.find? o k))
  /-- No insertion is in conflict, and none does anything else. -/
  insert : ∀ depth k v, Refines (s.heap.insertWithin depth o k v)
    (.ok ((s.insert o k v).1, (s.insert o k v).2.heap.entries o))
  /-- While it is inserted into, it is equal to no other object, and to compare it ends. -/
  alone : ∀ p, p ≠ o → ∀ depth,
    s.heap.compare (some o) (depth + 1) (some o) (some p) = .ok false ∧
      s.heap.compare (some o) (depth + 1) (some p) (some o) = .ok false
  /-- To insert it into itself ends, and adds one entry at most. -/
  own : ∀ v, ((s.insert o (some o) v).2.heap.entries o).length ≤ (s.heap.entries o).length + 1 ∧
    ∀ depth, s.heap.insertWithin (depth + 1) o (some o) v =
      .ok ((s.insert o (some o) v).1, (s.insert o (some o) v).2.heap.entries o)
  /-- To insert it once more at once returns what it was mapped to. -/
  twice : ∀ v w, ((s.insert o (some o) v).2.insert o (some o) w).1 = some v
  /-- To insert it once more, whatever has happened in between, replaces what it is mapped to
      where this stands. -/
  again : ∀ v s', Later (s.insert o (some o) v).2 s' → ∀ w,
    ∃ i x, (s'.heap.entries o)[i]? = some (some o, x) ∧ (s'.insert o (some o) w).1 = some x ∧
      (s'.insert o (some o) w).2.heap.entries o = (s'.heap.entries o).set i (some o, w)
  /-- Each key that is stored is found, under the first key that is the same. -/
  found : ∀ i e, (s.heap.entries o)[i]? = some e → ∃ j ≤ i, ∃ e', (s.heap.entries o)[j]? = some e' ∧
    s.heap.sameKey none e.1 e'.1 = true ∧ s.find? o e.1 = some e'.2 ∧
      ∀ x ∈ (s.heap.entries o).take j, s.heap.sameKey none e.1 x.1 = false

theorem present_own (hc : s.heap.node o = .container c) : s.heap.Present (some o) := by
  rintro _ ⟨⟩
  exact Heap.lt_size_of_container hc

/-- To insert a container into itself looks for itself among the keys. -/
theorem Orderly.insert_own (hs : s.Orderly) (hc : s.heap.node o = .container c) (v : Value) :
    (s.insert o (some o) v).1 = Entries.find? (· == some o) (s.heap.entries o) ∧
      (s.insert o (some o) v).2.heap.entries o =
        Entries.insert (· == some o) (some o) v (s.heap.entries o) := by
  rw [(hs.insert_eq o (some o) v).1, (hs.insert_eq o (some o) v).2]
  exact Heap.insert_own hc v

/-- A container that is a key of itself is not stored once more. -/
theorem Orderly.insert_own_again (hs : s.Orderly) (hc : s.heap.node o = .container c)
    (ho : some o ∈ (s.heap.entries o).map Prod.fst) (w : Value) :
    ∃ i x, (s.heap.entries o)[i]? = some (some o, x) ∧ (s.insert o (some o) w).1 = some x ∧
      (s.insert o (some o) w).2.heap.entries o = (s.heap.entries o).set i (some o, w) := by
  obtain ⟨hfst, hentries⟩ := hs.insert_own hc w
  obtain ⟨e, he, heo⟩ := List.mem_map.1 ho
  cases hf : Entries.find? (· == some o) (s.heap.entries o) with
  | none =>
    have hne := Entries.find?_eq_none_iff.1 hf e he
    simp [heo] at hne
  | some x =>
    obtain ⟨i, k, hi, hk, hset⟩ := Entries.exists_index hf (some o) w
    obtain rfl := beq_iff_eq.1 hk
    exact ⟨i, x, hi, hfst.trans hf, hentries.trans hset⟩

/-- What was stored stays a key, and what was a container stays one. -/
theorem Orderly.again (hs : s.Orderly) (hc : s.heap.node o = .container c) (v : Value)
    (hlater : Later (s.insert o (some o) v).2 s') (w : Value) :
    ∃ i x, (s'.heap.entries o)[i]? = some (some o, x) ∧ (s'.insert o (some o) w).1 = some x ∧
      (s'.insert o (some o) w).2.heap.entries o = (s'.heap.entries o).set i (some o, w) := by
  have hstep : s.Step (s.insert o (some o) v).2 := .insert o (some o) v hc (present_own hc)
  obtain ⟨d, hd⟩ := (hstep.ages.trans hlater.ages).exists_container hc
  refine (hlater.orderly (hstep.orderly hs)).insert_own_again hd ?_ w
  refine (hlater.ages.keys o).subset ?_
  rw [(hs.insert_own hc v).2]
  have hfound : Entries.find? (· == some o)
      (Entries.insert (· == some o) (some o) v (s.heap.entries o)) = some v :=
    Entries.find?_insert_self (beq_self_eq_true (some o))
  obtain ⟨k, hk, hko⟩ := Entries.mem_of_find? hfound
  exact List.mem_map.2 ⟨_, hk, beq_iff_eq.1 hko⟩

/-- **Every key that is stored is found**, or one before it that is the same. -/
theorem Orderly.found (hs : s.Orderly) (hc : s.heap.node o = .container c) {i : Nat} {e : Entry}
    (hi : (s.heap.entries o)[i]? = some e) :
    ∃ j ≤ i, ∃ e', (s.heap.entries o)[j]? = some e' ∧ s.heap.sameKey none e.1 e'.1 = true ∧
      s.find? o e.1 = some e'.2 ∧
        ∀ x ∈ (s.heap.entries o).take j, s.heap.sameKey none e.1 x.1 = false := by
  have hfind : s.find? o e.1 = Entries.find? (s.heap.sameKey none e.1) (s.heap.entries o) := by
    rw [hs.find?_eq, Heap.find?, Heap.container?, hc, Heap.entries_of_node hc]
    exact c.find?_eq _
  rw [hfind]
  exact Entries.exists_first hi (Heap.sameKey_iff.2 ⟨s.heap.equal_refl e.1, rfl⟩)

/-- **Containers among their own keys.**  In a heap that can be made from nothing, where
    containers may be keys of themselves, keys may lead to the container and objects may change
    after they were stored as keys: a comparison, a look-up or an insertion that ends is never in
    conflict with an insertion, and keys filed under the hashes that they had are found by those
    that they have.  While a container is inserted into, it is equal to no other object, so that
    to insert it into itself twice stores it once, and every key that is stored is found. -/
theorem sound_of_reached (hs : s.Reached) (hc : s.heap.node o = .container c) : s.Sound o := by
  have ho := hs.orderly orderly_start
  have hinsert : ∀ k v, (s.heap.insert o k v).1 = (s.insert o k v).1 ∧
      (s.heap.insert o k v).2.entries o = (s.insert o k v).2.heap.entries o := fun k v => by
    rw [(ho.insert_eq o k v).1, (ho.insert_eq o k v).2]
    exact ⟨rfl, rfl⟩
  refine ⟨fun busy n v w => Heap.compare_refines n v w, fun n k => ?_, fun n k v => ?_,
    fun p hp n => Heap.compare_own hc hp n, fun v => ⟨?_, fun n => ?_⟩, fun v w => ?_,
    fun v s' hlater w => ho.again hc v hlater w, fun i e hi => ho.found hc hi⟩
  · rw [ho.find?_eq]
    exact Heap.getWithin_refines n o k
  · rw [← (hinsert k v).1, ← (hinsert k v).2]
    exact Heap.insertWithin_refines hc n k v
  · rw [(ho.insert_own hc v).2, Entries.length_insert]
    split <;> omega
  · rw [(ho.insert_own hc v).1, (ho.insert_own hc v).2]
    exact Heap.insertWithin_own hc n v
  · have hnext := ho.insert hc (present_own hc) v
    obtain ⟨d, hd⟩ := (Step.insert o (some o) v hc (present_own hc)).ages.exists_container hc
    rw [(hnext.insert_own hd w).1, (ho.insert_own hc v).2]
    exact Entries.find?_insert_self (beq_self_eq_true (some o))

/-! ### An example -/

/-- The heap with one more object. -/
def alloc (s : Filed) (n : Node) : Filed := { s with heap := (s.heap.alloc n).2 }

/-- An ordered container of a number by an unordered one and by itself, where the unordered one
    has got the ordered one as a key since, and itself as its value. -/
def entwined : Filed :=
  let s := ((start.alloc (.container (.empty .linked))).alloc (.container (.empty .hash))).alloc
    (.leaf (.i32 7))
  (((s.insert 0 (some 1) (some 2)).2.insert 0 (some 0) (some 2)).2.insert 1 (some 0) (some 1)).2

theorem Reached.insert (hs : s.Reached) {k : Value}
    (ho : (s.heap.container? o).isSome = true) (hk : ∀ p ∈ k, p < s.heap.size) (v : Value) :
    (s.insert o k v).2.Reached := by
  cases hc : s.heap.node o with
  | container c => exact hs.tail (.insert o k v hc hk)
  | _ => simp [Heap.container?, hc] at ho

theorem reached_entwined : entwined.Reached := by
  have hempty : ∀ type c, Node.container (.empty type) = .container c → c = .empty c.type := by
    rintro type _ ⟨⟩
    rw [Container.type_empty]
  have hstart : ((start.alloc (.container (.empty .linked))).alloc
      (.container (.empty .hash))).Reached :=
    (Relation.ReflTransGen.single (.alloc _ (hempty _))).tail (.alloc _ (hempty _))
  have hall := hstart.tail (.alloc (.leaf (.i32 7)) (by simp))
  have h₁ := Reached.insert (o := 0) (k := some 1) hall (by decide) (by decide) (some 2)
  have h₂ := Reached.insert (o := 0) (k := some 0) h₁ (by decide +kernel) (by decide +kernel)
    (some 2)
  exact Reached.insert h₂ (by decide +kernel) (by decide +kernel) (some 1)

/-- Both keys are found, no insertion of the one that leads back is in conflict, and to insert
    the ordered container into itself once more replaces its entry. -/
theorem sound_of_reached_entwined : entwined.Reached ∧
    entwined.find? 0 (some 1) = some (some 2) ∧ entwined.find? 0 (some 0) = some (some 2) ∧
      entwined.heap.getWithin 2 0 (some 1) = .ok (some (some 2)) ∧
      (∀ depth p, entwined.heap.insertWithin depth 0 (some 1) none ≠ .error (.conflict p)) ∧
      (entwined.insert 0 (some 0) (some 0)).2.heap.entries 0 =
        [(some 1, some 2), (some 0, some 0)] := by
  have hentries : entwined.heap.entries 0 = [(some 1, some 2), (some 0, some 2)] := by
    decide +kernel
  let c : Container := .linked
    { order := [(some 1, some 2), (some 0, some 2)], index := ⟨[(some 1, 0), (some 0, 1)]⟩ }
  have hc : entwined.heap.node 0 = .container c := by decide +kernel
  have hsound := sound_of_reached reached_entwined hc
  have hfirst : entwined.find? 0 (some 1) = some (some 2) := by
    obtain ⟨j, hj, e', hje, -, hf, -⟩ := hsound.found 0 (some 1, some 2) (by rw [hentries]; rfl)
    obtain rfl := Nat.le_zero.1 hj
    rw [hentries] at hje
    cases hje
    exact hf
  have hown : entwined.find? 0 (some 0) = some (some 2) := by
    obtain ⟨j, hj, e', hje, -, hf, -⟩ := hsound.found 1 (some 0, some 2) (by rw [hentries]; rfl)
    rw [hentries] at hje
    have hvalue : e'.2 = some 2 := by
      match j, hj with
      | 0, _ | 1, _ => cases hje; rfl
    exact hvalue ▸ hf
  refine ⟨reached_entwined, hfirst, hown, ?_, fun depth p => ?_, ?_⟩
  · exact hfirst ▸ (hsound.get 2 (some 1)).resolve_left (by decide +kernel)
  · exact (hsound.insert depth (some 1) none).ne_conflict p
  · have hinto : entwined.heap.insertWithin 1 0 (some 0) (some 0) =
        .ok (some (some 2), [(some 1, some 2), (some 0, some 0)]) := by decide +kernel
    rw [(hsound.own (some 0)).2 0] at hinto
    exact (Prod.mk.inj (Except.ok.inj hinto)).2

end Filed

end GraphWire

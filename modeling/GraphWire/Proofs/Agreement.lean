/-
  Containers of all types are one finite map.

  What a container answers is what a list of pairs answers: a new key comes last, and the value
  of a key that is there already is replaced where it stands, under the key that was stored
  first.  Which keys are the same is settled by the objects that they lead to, so the keys have
  to be simple and to stay as they are.

  * `MapCall.Answers`: what a list of pairs answers to a call, and `MapCall.History` to many;
    `MapCall.History.unique`: there are no other answers;
  * `Heap.Called`: the calls of a container while anything else goes on around it;
  * `Container.Lists.insert`: an insertion does to a container what it does to the list;
  * `Heap.Called.same_map`: two containers, of whatever types, that are called alike answer
    alike and hold the same list, an ordered one in its order.
-/
import GraphWire.Proofs.Filling

namespace GraphWire

/-- A call of a container. -/
inductive MapCall where
  | insert (key value : Value)
  | get (key : Value)
  deriving DecidableEq, Repr

/-- A call and what came of it: what the key mapped to before, or what it maps to. -/
abbrev Answered := MapCall × Option Value

namespace MapCall

/-- The key that a call is about. -/
def key : MapCall → Value
  | insert key _ | get key => key

/-! ## Lists of pairs -/

/-- What a list of pairs answers to a call, and what it is afterwards. -/
inductive Answers (same : Value → Value → Bool) (l : List Entry) :
    MapCall → Option Value → List Entry → Prop
  | appended {k v : Value} : (∀ e ∈ l, same k e.1 = false) →
      Answers same l (.insert k v) none (l ++ [(k, v)])
  | replaced {k v k' w : Value} {i : Nat} : l[i]? = some (k', w) → same k k' = true →
      Answers same l (.insert k v) (some w) (l.set i (k', v))
  | absent {k : Value} : (∀ e ∈ l, same k e.1 = false) → Answers same l (.get k) none l
  | found {k k' w : Value} : (k', w) ∈ l → same k k' = true → Answers same l (.get k) (some w) l

/-- Whether a list of pairs that was empty at first gives such answers to calls, the last
    first, and is what it is afterwards. -/
inductive History (same : Value → Value → Bool) : List Answered → List Entry → Prop
  | start : History same [] []
  | call {log : List Answered} {l l' : List Entry} {c : MapCall} {a : Option Value} :
      History same log l → Answers same l c a l' → History same ((c, a) :: log) l'

variable {same same' : Value → Value → Bool} {l l₁ l₂ : List Entry} {c : MapCall}
  {a b : Option Value} {log log' : List Answered}

namespace Answers

/-- No key is stored that was neither there nor in the call. -/
theorem key_mem (ha : Answers same l c a l₁) {e : Entry} (he : e ∈ l₁) :
    e.1 = c.key ∨ ∃ e' ∈ l, e'.1 = e.1 := by
  cases ha with
  | appended =>
    rcases List.mem_append.1 he with he | he
    · exact Or.inr ⟨e, he, rfl⟩
    · exact Or.inl (congrArg Prod.fst (List.mem_singleton.1 he))
  | replaced hi =>
    rcases List.mem_or_eq_of_mem_set he with he | rfl
    · exact Or.inr ⟨e, he, rfl⟩
    · exact Or.inr ⟨_, List.mem_of_getElem? hi, rfl⟩
  | absent | found => exact Or.inr ⟨e, he, rfl⟩

/-- Only how the keys compare that are there or in the call matters. -/
theorem congr (ha : Answers same l c a l₁) (hs : ∀ e ∈ l, same c.key e.1 = same' c.key e.1) :
    Answers same' l c a l₁ := by
  cases ha with
  | appended hnew => exact .appended fun e he => (hs e he).symm.trans (hnew e he)
  | replaced hi hk => exact .replaced hi ((hs _ (List.mem_of_getElem? hi)).symm.trans hk)
  | absent hnew => exact .absent fun e he => (hs e he).symm.trans (hnew e he)
  | found hm hk => exact .found hm ((hs _ hm).symm.trans hk)

/-- A key is stored once. -/
theorem pairwise (ha : Answers same l c a l₁)
    (hl : l.Pairwise fun e e' => same e'.1 e.1 = false) :
    l₁.Pairwise fun e e' => same e'.1 e.1 = false := by
  cases ha with
  | appended hnew =>
    refine List.pairwise_append.2 ⟨hl, List.pairwise_singleton _ _, fun e he e' he' => ?_⟩
    rw [List.mem_singleton.1 he']
    exact hnew e he
  | @replaced k v k' w i hi =>
    have hkeys : (l.set i (k', v)).map Prod.fst = l.map Prod.fst := by
      refine List.ext_getElem? fun j => ?_
      rw [List.getElem?_map, List.getElem?_map, List.getElem?_set]
      split
      · next hj =>
        subst hj
        rw [if_pos (List.getElem?_eq_some_iff.1 hi).1, hi]
        rfl
      · rfl
    have hl' : (l.map Prod.fst).Pairwise fun k k' => same k' k = false := List.pairwise_map.2 hl
    exact List.pairwise_map.1 (hkeys ▸ hl')
  | absent | found => exact hl

end Answers

namespace History

theorem key_mem (hl : History same log l) {e : Entry} (he : e ∈ l) : ∃ x ∈ log, x.1.key = e.1 := by
  induction hl generalizing e with
  | start => cases he
  | call _ ha ih =>
    rcases ha.key_mem he with hk | ⟨e', he', hk⟩
    · exact ⟨_, List.mem_cons_self, hk.symm⟩
    · obtain ⟨x, hx, hxk⟩ := ih he'
      exact ⟨x, List.mem_cons_of_mem _ hx, hxk.trans hk⟩

theorem congr (hl : History same log l)
    (hs : ∀ x ∈ log, ∀ y ∈ log, same x.1.key y.1.key = same' x.1.key y.1.key) :
    History same' log l := by
  induction hl with
  | start => exact .start
  | @call log l l' c a hl ha ih =>
    refine .call (ih fun x hx y hy => ?_) (ha.congr fun e he => ?_)
    · exact hs x (List.mem_cons_of_mem _ hx) y (List.mem_cons_of_mem _ hy)
    · obtain ⟨x, hx, hxe⟩ := hl.key_mem he
      rw [← hxe]
      exact hs (c, a) List.mem_cons_self x (List.mem_cons_of_mem _ hx)

theorem pairwise (hl : History same log l) : l.Pairwise fun e e' => same e'.1 e.1 = false := by
  induction hl with
  | start => exact .nil
  | call _ ha ih => exact ha.pairwise ih

end History

/-! ### There are no other answers -/

/-- Whether keys that are the same as a third are the same. -/
def Euclidean (same : Value → Value → Bool) (log : List Answered) : Prop :=
  ∀ x ∈ log, ∀ y ∈ log, ∀ z ∈ log, same x.1.key y.1.key = true → same x.1.key z.1.key = true →
    same y.1.key z.1.key = true

/-- A key is the same as one of those that are stored at most. -/
theorem eq_of_same (hl : l.Pairwise fun e e' => same e'.1 e.1 = false) {k : Value}
    (hs : ∀ e ∈ l, ∀ e' ∈ l, same k e.1 = true → same k e'.1 = true → same e.1 e'.1 = true)
    {i j : Nat} {e e' : Entry} (hi : l[i]? = some e) (hj : l[j]? = some e')
    (he : same k e.1 = true) (he' : same k e'.1 = true) : i = j := by
  have hne : ∀ {i j : Nat} {e e' : Entry}, l[i]? = some e → l[j]? = some e' →
      same k e.1 = true → same k e'.1 = true → ¬i < j := by
    intro i j e e' hi hj he he' hlt
    obtain ⟨hilt, rfl⟩ := List.getElem?_eq_some_iff.1 hi
    obtain ⟨hjlt, rfl⟩ := List.getElem?_eq_some_iff.1 hj
    have hne := List.pairwise_iff_getElem.1 hl i j hilt hjlt hlt
    rw [hs _ (List.getElem_mem hjlt) _ (List.getElem_mem hilt) he' he] at hne
    cases hne
  exact Nat.le_antisymm (Nat.le_of_not_lt (hne hj hi he' he)) (Nat.le_of_not_lt (hne hi hj he he'))

theorem Answers.unique (hl : l.Pairwise fun e e' => same e'.1 e.1 = false)
    (hs : ∀ e ∈ l, ∀ e' ∈ l, same c.key e.1 = true → same c.key e'.1 = true →
      same e.1 e'.1 = true)
    (ha : Answers same l c a l₁) (hb : Answers same l c b l₂) : a = b ∧ l₁ = l₂ := by
  cases ha with
  | appended hnew =>
    cases hb with
    | appended => exact ⟨rfl, rfl⟩
    | replaced hi hk => cases (hnew _ (List.mem_of_getElem? hi)).symm.trans hk
  | replaced hi hk =>
    cases hb with
    | appended hnew => cases (hnew _ (List.mem_of_getElem? hi)).symm.trans hk
    | replaced hj hk' =>
      obtain rfl := eq_of_same hl hs hi hj hk hk'
      cases hi.symm.trans hj
      exact ⟨rfl, rfl⟩
  | absent hnew =>
    cases hb with
    | absent => exact ⟨rfl, rfl⟩
    | found hm hk => cases (hnew _ hm).symm.trans hk
  | found hm hk =>
    cases hb with
    | absent hnew => cases (hnew _ hm).symm.trans hk
    | found hm' hk' =>
      obtain ⟨i, hi⟩ := List.mem_iff_getElem?.1 hm
      obtain ⟨j, hj⟩ := List.mem_iff_getElem?.1 hm'
      obtain rfl := eq_of_same hl hs hi hj hk hk'
      cases hi.symm.trans hj
      exact ⟨rfl, rfl⟩

/-- **A list of pairs has one answer to each call**, where keys that are the same as a third
    are the same. -/
theorem History.unique (hs : Euclidean same log) (hl : History same log l₁)
    (hl' : History same log' l₂) (hcalls : log.map Prod.fst = log'.map Prod.fst) :
    log = log' ∧ l₁ = l₂ := by
  induction hl generalizing log' l₂ with
  | start =>
    cases hl' with
    | start => exact ⟨rfl, rfl⟩
    | call => cases hcalls
  | @call log l l' c a hl ha ih =>
    cases hl' with
    | start => cases hcalls
    | @call log' _ _ _ b hl' hb =>
      obtain ⟨rfl, htail⟩ := List.cons_eq_cons.1 hcalls
      have hrest : Euclidean same log := fun x hx y hy z hz =>
        hs x (List.mem_cons_of_mem _ hx) y (List.mem_cons_of_mem _ hy) z (List.mem_cons_of_mem _ hz)
      obtain ⟨rfl, rfl⟩ := ih hrest hl' htail
      have hkey : ∀ e ∈ l, ∀ e' ∈ l, same c.key e.1 = true → same c.key e'.1 = true →
          same e.1 e'.1 = true := by
        intro e he e' he'
        obtain ⟨x, hx, hxe⟩ := hl.key_mem he
        obtain ⟨y, hy, hye⟩ := hl.key_mem he'
        rw [← hxe, ← hye]
        exact hs (c, a) List.mem_cons_self x (List.mem_cons_of_mem _ hx) y
          (List.mem_cons_of_mem _ hy)
      obtain ⟨rfl, rfl⟩ := ha.unique hl.pairwise hkey hb
      exact ⟨rfl, rfl⟩

end MapCall

/-! ## Containers -/

/-- Whether a container has the entries of a list: an ordered one in its order. -/
structure Container.Lists (c : Container) (l : List Entry) : Prop where
  perm : c.entries.Perm l
  eq : c.type ≠ .hash → c.entries = l

/-- Whether the index of an ordered container leads from each key of a list to its position, and
    to each position once. -/
def Container.Indexes (same : Value → Value → Bool) : Container → List Entry → Prop
  | .hash _, _ => True
  | .linked t, l | .named _ t, l =>
    (∀ i e, l[i]? = some e → t.index.find? (same e.1) = some i) ∧
      (t.index.slots.map Prod.snd).Perm (List.range l.length)

/-- Where the key that is found stands, and what an insertion does there. -/
theorem Entries.exists_index {test : Value → Bool} {l : List Entry} {w : Value}
    (hf : find? test l = some w) (k v : Value) :
    ∃ i k', l[i]? = some (k', w) ∧ test k' = true ∧ insert test k v l = l.set i (k', v) := by
  induction l with
  | nil => cases hf
  | cons e l ih =>
    simp only [find?] at hf
    by_cases ht : test e.1 = true
    · rw [if_pos ht] at hf
      cases hf
      exact ⟨0, e.1, rfl, ht, by simp [insert, ht]⟩
    · rw [if_neg ht] at hf
      obtain ⟨i, k', hi, hk', hl⟩ := ih hf
      exact ⟨i + 1, k', hi, hk', by simp [insert, ht, hl]⟩

/-- The same value can be replaced in any order. -/
theorem perm_set {α : Type} {l l' : List α} (hp : l.Perm l') {i j : Nat} {x : α}
    (hi : l[i]? = some x) (hj : l'[j]? = some x) (y : α) : (l.set i y).Perm (l'.set j y) := by
  obtain ⟨hilt, rfl⟩ := List.getElem?_eq_some_iff.1 hi
  obtain ⟨hjlt, hx⟩ := List.getElem?_eq_some_iff.1 hj
  have hrest : (l.eraseIdx i).Perm (l'.eraseIdx j) := by
    refine List.Perm.cons_inv (a := l[i]) ?_
    refine (List.getElem_cons_eraseIdx_perm hilt).trans (hp.trans ?_)
    rw [← hx]
    exact (List.getElem_cons_eraseIdx_perm hjlt).symm
  exact (List.set_perm_cons_eraseIdx hilt y).trans
    ((hrest.cons y).trans (List.set_perm_cons_eraseIdx hjlt y).symm)

namespace Container

open MapCall (Answers)

variable {same : Value → Value → Bool} {c c' : Container} {l : List Entry} {test : Value → Bool}
  {k : Value}

/-- A container that finds no key holds none that is the same. -/
theorem Lists.forall_of_find? (hl : c.Lists l) (ht : ∀ e ∈ l, test e.1 = same k e.1)
    (hf : Entries.find? test c.entries = none) : ∀ e ∈ l, same k e.1 = false := fun e he =>
  (ht e he).symm.trans (Entries.find?_eq_none_iff.1 hf e (hl.perm.mem_iff.2 he))

/-- **An insertion does to a container what it does to the list of its entries.** -/
theorem Lists.insert (hl : c.Lists l) (ht : ∀ e ∈ l, test e.1 = same k e.1) (v : Value) :
    ∃ l', Answers same l (.insert k v) (c.insert test k v).1 l' ∧
      (c.insert test k v).2.Lists l' := by
  rw [c.fst_insert, c.find?_eq]
  cases hf : Entries.find? test c.entries with
  | none =>
    refine ⟨_, .appended (hl.forall_of_find? ht hf), ?_, fun hhash => ?_⟩
    · rw [c.entries_insert, Entries.insert_of_find?_eq_none hf]
      exact hl.perm.append_right _
    · rw [c.type_insert] at hhash
      rw [c.entries_insert, Entries.insert_of_find?_eq_none hf, hl.eq hhash]
  | some w =>
    obtain ⟨i, k', hi, hk', hset⟩ := Entries.exists_index hf k v
    have hmem : (k', w) ∈ l := hl.perm.mem_iff.1 (List.mem_of_getElem? hi)
    have hsame : same k k' = true := (ht _ hmem).symm.trans hk'
    by_cases hhash : c.type = .hash
    · obtain ⟨j, hj⟩ := List.mem_iff_getElem?.1 hmem
      refine ⟨_, .replaced hj hsame, ?_, fun hne => absurd ?_ hne⟩
      · rw [c.entries_insert, hset]
        exact perm_set hl.perm hi hj _
      · rw [c.type_insert, hhash]
    · obtain rfl := hl.eq hhash
      refine ⟨_, .replaced hi hsame, ?_, fun _ => ?_⟩
      · rw [c.entries_insert, hset]
      · rw [c.entries_insert, hset]

/-- What a container finds is what the list of its entries has. -/
theorem Lists.get (hl : c.Lists l) (ht : ∀ e ∈ l, test e.1 = same k e.1) :
    Answers same l (.get k) (c.find? test) l := by
  rw [c.find?_eq]
  cases hf : Entries.find? test c.entries with
  | none => exact .absent (hl.forall_of_find? ht hf)
  | some w =>
    obtain ⟨k', hm, hk'⟩ := Entries.mem_of_find? hf
    have hmem := hl.perm.mem_iff.1 hm
    exact .found hmem ((ht _ hmem).symm.trans hk')

/-- An unordered container may list its entries in another order. -/
theorem Lists.reordered (hl : c.Lists l)
    (hr : Node.Reordered (.container c) (.container c')) : c'.Lists l := by
  cases hr with
  | refl => exact hl
  | hash hp => exact ⟨hp.symm.trans hl.perm, fun hne => absurd rfl hne⟩

/-- **The index leads to the positions**, where a key is stored once. -/
theorem Lists.indexes (hl : c.Lists l) (hsame : ∀ e ∈ l, same e.1 e.1 = true)
    (hne : l.Pairwise fun e e' => same e'.1 e.1 = false) : c.Indexes same l := by
  have htable : ∀ t : LinkedTable, t.order = l →
      (∀ i e, l[i]? = some e → t.index.find? (same e.1) = some i) ∧
        (t.index.slots.map Prod.snd).Perm (List.range l.length) := by
    rintro t rfl
    refine ⟨fun i e hi => ?_, ?_⟩
    · obtain ⟨hlt, rfl⟩ := List.getElem?_eq_some_iff.1 hi
      rw [t.find?_index, List.findIdx?_eq_some_iff_getElem]
      refine ⟨hlt, hsame _ (List.getElem_mem hlt), fun j hj => ?_⟩
      rw [List.pairwise_iff_getElem.1 hne j i (hj.trans hlt) hlt hj]
      exact Bool.false_ne_true
    · rw [t.slots_index, List.zipIdx_map_snd, List.length_map, List.range_eq_range']
  cases c with
  | hash t => trivial
  | linked t => exact htable t (hl.eq (by simp [type]))
  | named tag t => exact htable t (hl.eq (by simp [type]))

end Container

/-! ## Calls -/

namespace Heap

open MapCall (History Euclidean)

variable {h h' : Heap} {o p : ObjId} {log log' : List Answered} {l : List Entry}

/-- Calls a container; what comes of it, and the heap afterwards. -/
def call (h : Heap) (o : ObjId) : MapCall → Option Value × Heap
  | .insert k v => h.insert o k v
  | .get k => (h.find? o k, h)

/-- Whether these are all calls of a container since it had no entries, the last first, and
    their answers.  The keys are simple and do not lead to the container, and nothing that they
    lead to is changed once they are called with.  In between anything else may happen, and an
    unordered container may list its entries in another order. -/
inductive Called (o : ObjId) : List Answered → Heap → Prop
  | start {h : Heap} {type : ContainerType} : o < h.size →
      h.node o = .container (.empty type) → Called o [] h
  | call {h : Heap} {log : List Answered} (c : MapCall) : Called o log h → h.Simple c.key →
      ¬h.Leads c.key o → Called o ((c, (h.call o c).1) :: log) (h.call o c).2
  | meanwhile {h h' : Heap} {log : List Answered} : Called o log h → h.size ≤ h'.size →
      (h.node o).Reordered (h'.node o) →
      (∀ x ∈ log, ∀ q, h.Leads x.1.key q → h'.node q = h.node q) → Called o log h'

/-- What the calls of a container leave. -/
structure Recorded (h : Heap) (o : ObjId) (log : List Answered) : Prop where
  lt : o < h.size
  simple : ∀ x ∈ log, h.Simple x.1.key
  outside : ∀ x ∈ log, ¬h.Leads x.1.key o
  lists : ∃ c l, h.node o = .container c ∧ History (h.sameKey none) log l ∧ c.Lists l

/-- Keys that are kept compare as they did. -/
theorem history_of_kept (hs : ∀ x ∈ log, h.Simple x.1.key)
    (hk : ∀ x ∈ log, ∀ q, h.Leads x.1.key q → h'.node q = h.node q)
    (hl : History (h.sameKey none) log l) : History (h'.sameKey none) log l :=
  hl.congr fun x hx y hy =>
    (sameKey_of_kept (hs x hx).heightLe (hk x hx) (hk y hy) (by simp)).symm

theorem Recorded.later (hr : h.Recorded o log) (hsize : h.size ≤ h'.size)
    (hn : (h.node o).Reordered (h'.node o))
    (hk : ∀ x ∈ log, ∀ q, h.Leads x.1.key q → h'.node q = h.node q) : h'.Recorded o log := by
  obtain ⟨c, l, hc, hl, hlists⟩ := hr.lists
  refine ⟨hr.lt.trans_le hsize, fun x hx => (hr.simple x hx).of_kept (hk x hx),
    fun x hx hq => ?_, ?_⟩
  · exact hr.outside x hx ((leads_iff_of_kept (hk x hx)).1 hq)
  · rw [hc] at hn
    obtain ⟨c', hc', -, -⟩ := hn.shuffled.exists_container
    exact ⟨c', l, hc', history_of_kept hr.simple hk hl, hlists.reordered (hc' ▸ hn)⟩

/-- **A call is answered as by the list**, and changes the container as the list. -/
theorem Recorded.call (hr : h.Recorded o log) (c : MapCall) (hs : h.Simple c.key)
    (hout : ¬h.Leads c.key o) : (h.call o c).2.Recorded o ((c, (h.call o c).1) :: log) := by
  obtain ⟨ct, l, hct, hl, hlists⟩ := hr.lists
  have hsimple : ∀ a, ∀ x ∈ (c, a) :: log, h.Simple x.1.key := fun a =>
    List.forall_mem_cons.2 ⟨hs, hr.simple⟩
  have houtside : ∀ a, ∀ x ∈ (c, a) :: log, ¬h.Leads x.1.key o := fun a =>
    List.forall_mem_cons.2 ⟨hout, hr.outside⟩
  cases c with
  | get k =>
    have hfind : h.find? o k = ct.find? (h.sameKey none k) := by simp [find?, container?, hct]
    refine ⟨hr.lt, hsimple _, houtside _, ct, l, hct, .call hl ?_, hlists⟩
    show MapCall.Answers _ l (.get k) (h.find? o k) l
    rw [hfind]
    exact hlists.get fun e _ => rfl
  | insert k v =>
    -- no stored key leads to the container either, so that they compare as ever
    have htest : ∀ e ∈ l, h.sameKey (some o) k e.1 = h.sameKey none k e.1 := by
      intro e he
      obtain ⟨x, hx, hxe⟩ := hl.key_mem he
      refine (sameKey_of_kept hs.heightLe (fun _ _ => rfl) (fun _ _ => rfl) ?_).symm
      rintro _ ⟨⟩
      exact ⟨hout, hxe ▸ hr.outside x hx⟩
    obtain ⟨l', hanswers, hlists'⟩ := hlists.insert htest v
    have hfst : (h.call o (.insert k v)).1 = (ct.insert (h.sameKey (some o) k) k v).1 := by
      simp [Heap.call, Heap.insert, hct]
    have hkept : ∀ a, ∀ x ∈ (MapCall.insert k v, a) :: log, ∀ q, h.Leads x.1.key q →
        (h.call o (.insert k v)).2.node q = h.node q := fun a x hx q hq =>
      node_insert_of_ne k v fun heq => houtside a x hx (heq ▸ hq)
    refine ⟨(size_insert k v).symm ▸ hr.lt, fun x hx => (hsimple _ x hx).of_kept (hkept _ x hx),
      fun x hx hq => houtside _ x hx ((leads_iff_of_kept (hkept _ x hx)).1 hq),
      _, l', node_insert_self k v hct hr.lt, ?_, hlists'⟩
    exact history_of_kept (hsimple _) (hkept _) (.call hl (hfst ▸ hanswers))

theorem Called.recorded (ho : h.Called o log) : h.Recorded o log := by
  induction ho with
  | start hlt hn =>
    refine ⟨hlt, by simp, by simp, _, [], hn, .start, ?_, fun _ => ?_⟩
    · rw [Container.entries_empty]
    · rw [Container.entries_empty]
  | call c _ hs hout ih => exact ih.call c hs hout
  | meanwhile _ hsize hn hk ih => exact ih.later hsize hn hk

/-- Simple keys that are the same as a third are the same. -/
theorem Recorded.euclidean (hr : h.Recorded o log) : Euclidean (h.sameKey none) log := by
  intro x hx y hy z hz hxy hxz
  have sx := hr.simple x hx
  have sy := hr.simple y hy
  have sz := hr.simple z hz
  rw [sameKey_iff] at hxy hxz ⊢
  exact ⟨sy.equal_trans sx sz (sx.equal_symm sy hxy.1) hxz.1, hxy.2.symm.trans hxz.2⟩

/-- Whether a container holds a list of entries, an ordered one in its order and by an index
    that leads to the positions. -/
def HoldsList (h : Heap) (o : ObjId) (l : List Entry) : Prop :=
  ∃ c, h.node o = .container c ∧ c.Lists l ∧ c.Indexes (h.sameKey none) l

/-- What a container was called for is what a list of pairs answers, and it holds this list. -/
theorem Recorded.holdsList (hr : h.Recorded o log) :
    ∃ l, History (h.sameKey none) log l ∧ h.HoldsList o l := by
  obtain ⟨c, l, hc, hl, hlists⟩ := hr.lists
  refine ⟨l, hl, c, hc, hlists, hlists.indexes (fun e _ => ?_) hl.pairwise⟩
  exact sameKey_iff.2 ⟨h.equal_refl e.1, rfl⟩

/-- **Containers of all types are one finite map.**  Two containers that are called alike, of
    whatever types they are and whatever goes on in between, give the same answers: those of the
    list of pairs in which a new key comes last, and the value of a key that is there is
    replaced where it stands.  Both hold this list, an ordered one in its order, and by an index
    that leads from each key to its own position. -/
theorem Called.same_map (ho : h.Called o log) (hp : h.Called p log')
    (hcalls : log.map Prod.fst = log'.map Prod.fst) :
    log = log' ∧ ∃ l, History (h.sameKey none) log l ∧ h.HoldsList o l ∧ h.HoldsList p l := by
  obtain ⟨l, hl, hol⟩ := ho.recorded.holdsList
  obtain ⟨l', hl', hpl⟩ := hp.recorded.holdsList
  obtain ⟨rfl, rfl⟩ := hl.unique ho.recorded.euclidean hl' hcalls
  exact ⟨rfl, l, hl, hol, hpl⟩

/-! ### An example -/

/-- Calls a container, again and again; the calls with their answers, the last first. -/
def calls (h : Heap) (o : ObjId) (log : List Answered) : List MapCall → List Answered × Heap
  | [] => (log, h)
  | c :: cs => (h.call o c).2.calls o ((c, (h.call o c).1) :: log) cs

theorem node_call_of_ne {q : ObjId} (c : MapCall) (hq : q ≠ o) :
    (h.call o c).2.node q = h.node q := by
  cases c with
  | insert k v => exact node_insert_of_ne k v hq
  | get k => rfl

/-- Keys that are simple and do not lead to the container stay so while it is called. -/
theorem Called.calls (ho : h.Called o log) (cs : List MapCall)
    (hcs : ∀ c ∈ cs, h.Simple c.key ∧ ¬h.Leads c.key o) :
    (h.calls o log cs).2.Called o (h.calls o log cs).1 := by
  induction cs generalizing h log with
  | nil => exact ho
  | cons c cs ih =>
    obtain ⟨⟨hs, hout⟩, hcs⟩ := List.forall_mem_cons.1 hcs
    refine ih (.call c ho hs hout) fun d hd => ?_
    have hkept : ∀ q, h.Leads d.key q → (h.call o c).2.node q = h.node q := fun q hq =>
      node_call_of_ne c fun heq => (hcs d hd).2 (heq ▸ hq)
    exact ⟨(hcs d hd).1.of_kept hkept, fun hl => (hcs d hd).2 ((leads_iff_of_kept hkept).1 hl)⟩

theorem size_calls (cs : List MapCall) : (h.calls o log cs).2.size = h.size := by
  induction cs generalizing h log with
  | nil => rfl
  | cons c cs ih =>
    refine ih.trans ?_
    cases c with
    | insert k v => exact size_insert k v
    | get k => rfl

theorem node_calls_of_ne {q : ObjId} (cs : List MapCall) (hq : q ≠ o) :
    (h.calls o log cs).2.node q = h.node q := by
  induction cs generalizing h log with
  | nil => rfl
  | cons c cs ih => exact ih.trans (node_call_of_ne c hq)

/-- An unordered and an ordered container without entries, a number, a NaN, and two containers
    with equal keys that are not one. -/
def shelves : Heap := ⟨#[.container (.empty .hash), .container (.empty (.named 3)), .leaf (.i32 7),
  .leaf (.f32 0x7fc00000), .container (.hash ⟨[(some 2, none)]⟩), .leaf (.i32 7),
  .container (.hash ⟨[(some 5, none)]⟩)]⟩

/-- Null, the NaN and both containers as keys. -/
def shelving : List MapCall :=
  [.insert none (some 2), .insert (some 3) (some 2), .insert (some 4) (some 2),
    .insert (some 6) (some 3), .get (some 6), .get (some 3), .get (some 2)]

/-- What a key in the example leads to stands behind the two containers. -/
theorem shelves_leads {c : MapCall} (hc : c ∈ shelving) {q : ObjId}
    (hq : shelves.Leads c.key q) : 2 ≤ q := by
  have hparts : ∀ o < 7, 2 ≤ o → ∀ x ∈ (shelves.node o).parts, ∀ p ∈ x, 2 ≤ p := by decide +kernel
  have hkeys : ∀ c ∈ shelving, ∀ p ∈ c.key, 2 ≤ p := by decide
  have hleads : ∀ v q, shelves.Leads v q → (∀ p ∈ v, 2 ≤ p) → 2 ≤ q := by
    intro v q hl
    induction hl with
    | self => exact fun hv => hv _ rfl
    | part hx _ ih => exact fun hv => ih (hparts _ (lt_size_of_part hx) (hv _ rfl) _ hx)
  exact hleads _ _ hq (hkeys c hc)

/-- Both are called alike, one after the other.  The second of the equal containers is not
    stored, and what it is mapped to replaces what the first was mapped to. -/
theorem same_map_shelves :
    let h₁ := shelves.calls 0 [] shelving
    let h₂ := h₁.2.calls 1 [] shelving
    let l : List Entry := [(none, some 2), (some 3, some 2), (some 4, some 3)]
    h₁.1 = h₂.1 ∧ h₂.1.map Prod.snd =
        [none, some (some 2), some (some 3), some (some 2), none, none, none] ∧
      h₂.2.HoldsList 0 l ∧ h₂.2.HoldsList 1 l := by
  intro h₁ h₂ l
  have hsimple : ∀ c ∈ shelving, shelves.Simple c.key := fun c hc =>
    ⟨((by decide +kernel : ∀ c ∈ shelving, shelves.HeightLe 2 c.key) c hc).acyclic,
      tidy_of_apart (by decide +kernel)⟩
  have hkept : ∀ c ∈ shelving, ∀ q, shelves.Leads c.key q → h₁.2.node q = shelves.node q :=
    fun c hc q hq => node_calls_of_ne _ (Nat.ne_of_gt (Nat.zero_lt_of_lt (shelves_leads hc hq)))
  have hleads : ∀ c ∈ shelving, ∀ q, h₁.2.Leads c.key q → 2 ≤ q := fun c hc q hq =>
    shelves_leads hc ((leads_iff_of_kept (hkept c hc)).1 hq)
  have hfirst : h₁.2.Called 0 h₁.1 :=
    (Called.start (by decide) rfl).calls shelving fun c hc =>
      ⟨hsimple c hc, fun hl => absurd (shelves_leads hc hl) (by decide)⟩
  have hstart : h₁.2.Called 1 [] :=
    .start ((size_calls shelving).symm ▸ by decide : 1 < h₁.2.size)
      (node_calls_of_ne shelving (by decide) : h₁.2.node 1 = .container (.empty (.named 3)))
  have hsecond : h₂.2.Called 1 h₂.1 := hstart.calls shelving fun c hc =>
    ⟨(hsimple c hc).of_kept (hkept c hc), fun hl => absurd (hleads c hc 1 hl) (by decide)⟩
  have hcalls : ∀ x ∈ h₁.1, x.1 ∈ shelving := by decide +kernel
  have hnode : h₂.2.node 0 = h₁.2.node 0 := node_calls_of_ne shelving (by decide)
  have hreordered : (h₁.2.node 0).Reordered (h₂.2.node 0) := by
    rw [hnode]
    exact .refl _
  have hfirst' : h₂.2.Called 0 h₁.1 :=
    hfirst.meanwhile (size_calls shelving).ge hreordered fun x hx q hq =>
      node_calls_of_ne shelving (Nat.ne_of_gt (hleads _ (hcalls x hx) q hq))
  obtain ⟨hsame, l', -, ho, hp⟩ := hfirst'.same_map hsecond (by decide +kernel)
  have hentries : h₂.2.entries 1 = l ∧ h₂.2.typeOf 1 = .container (.named 3) := by decide +kernel
  have hlist : l' = l := by
    obtain ⟨c, hc, hlists, -⟩ := hp
    rw [entries_of_node hc, typeOf, hc] at hentries
    refine (hlists.eq fun hhash => ?_).symm.trans hentries.1
    have htype : ObjectType.container c.type = .container (.named 3) := hentries.2
    rw [hhash] at htype
    cases htype
  rw [hlist] at ho hp
  exact ⟨hsame, by decide +kernel, ho, hp⟩

end Heap

end GraphWire

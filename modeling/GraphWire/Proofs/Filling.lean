/-
  Equality does not see how containers were filled.

  Among values that lead into no cycle, and to no container with a key twice, equality is an
  equivalence.  A container that is filled with keys that differ holds what was put into it, in
  the order in which it was put in, and this order equality does not see.

  * `Heap.Simple` says which values these are, `Heap.Fillable` which entries a container can
    hold together;
  * `Heap.Fillable.node_fill`: what a container holds that is filled with them;
  * `Heap.BuiltAlike.shuffled`: heaps that are built alike, but for the order in which
    containers are filled, differ in the order of containers only;
  * `Heap.equal_equivalence`: equality is an equivalence, the same in all these heaps.
-/
import GraphWire.Proofs.LeafKeys
import GraphWire.Proofs.Reordering
import GraphWire.Proofs.Trees

namespace GraphWire

namespace Heap

variable {h h' : Heap} {v w u : Value} {o q : ObjId} {c : Container} {e : Entry}
  {l l' : List Entry}

/-! ## Simple values -/

/-- Whether a value leads into no cycle, and to no container with a key twice. -/
structure Simple (h : Heap) (v : Value) : Prop where
  acyclic : h.Acyclic v
  tidy : h.Tidy v

/-- Whether no two keys of a container that a value leads to are equal. -/
def KeysUnequal (h : Heap) (v : Value) : Prop :=
  ∀ o, h.Leads v o → (h.entries o).Pairwise fun e e' => h.equal none e'.1 e.1 = false

/-- Keys that are not equal are not the same. -/
theorem KeysUnequal.tidy (hv : h.KeysUnequal v) : h.Tidy v := fun o ho =>
  (hv o ho).imp fun hne => by simp [sameKey, hne]

namespace Simple

theorem heightLe (hv : h.Simple v) : h.HeightLe (h.size + 1) v := hv.acyclic.heightLe

theorem of_kept (hv : h.Simple v) (hk : ∀ q, h.Leads v q → h'.node q = h.node q) :
    h'.Simple v :=
  ⟨(hv.heightLe.of_kept hk).acyclic, hv.tidy.of_kept hv.heightLe hk⟩

theorem of_shuffled (hv : h.Simple v) (hr : h.Shuffled h') : h'.Simple v :=
  ⟨(hr.heightLe hv.heightLe).acyclic, hr.tidy hv.heightLe hv.tidy⟩

theorem equal_symm (hv : h.Simple v) (hw : h.Simple w) (he : h.equal none v w = true) :
    h.equal none w v = true :=
  hv.heightLe.equal_symm hw.heightLe hv.tidy hw.tidy he

theorem equal_trans (hv : h.Simple v) (hw : h.Simple w) (hu : h.Simple u)
    (hvw : h.equal none v w = true) (hwu : h.equal none w u = true) : h.equal none v u = true :=
  hv.heightLe.equal_trans hw.heightLe hu.heightLe hv.tidy hw.tidy hu.tidy hvw hwu

theorem equal_of_shuffled (hv : h.Simple v) (hw : h.Simple w) (hr : h.Shuffled h') :
    h'.equal none v w = h.equal none v w := by
  rw [Bool.eq_iff_iff]
  exact hr.equal_iff hv.heightLe hw.heightLe hv.tidy hw.tidy

end Simple

theorem equal_refl (h : Heap) (v : Value) : h.equal none v v = true := by
  cases v with
  | none => exact equal_none_left.2 rfl
  | some o => exact equal_self

/-! ## Filling -/

/-- Puts entries into a container, one after the other. -/
def fill (h : Heap) (o : ObjId) (l : List Entry) : Heap :=
  l.foldl (fun h e => (h.insert o e.1 e.2).2) h

/-- Whether a container can hold entries together: the keys are simple, none is the same as
    another, and they do not lead to the container. -/
structure Fillable (h : Heap) (o : ObjId) (l : List Entry) : Prop where
  simple : ∀ e ∈ l, h.Simple e.1
  outside : ∀ e ∈ l, ¬h.Leads e.1 o
  apart : h.Apart l

theorem size_fill : (h.fill o l).size = h.size := by
  induction l generalizing h with
  | nil => rfl
  | cons e l ih => exact ih.trans (size_insert e.1 e.2)

theorem node_fill_of_ne (hq : q ≠ o) : (h.fill o l).node q = h.node q := by
  induction l generalizing h with
  | nil => rfl
  | cons e l ih => exact ih.trans (node_insert_of_ne e.1 e.2 hq)

namespace Fillable

/-- What is put into the container changes none of the keys. -/
theorem of_kept (hf : h.Fillable o l) (hn : ∀ q, q ≠ o → h'.node q = h.node q) :
    h'.Fillable o l := by
  have hkept : ∀ e ∈ l, ∀ q, h.Leads e.1 q → h'.node q = h.node q := fun e he q hq =>
    hn q fun heq => hf.outside e he (heq ▸ hq)
  refine ⟨fun e he => (hf.simple e he).of_kept (hkept e he), fun e he hl => ?_,
    hf.apart.of_kept (fun e he => (hf.simple e he).heightLe) hkept⟩
  exact hf.outside e he ((leads_iff_of_kept (hkept e he)).1 hl)

theorem of_shuffled (hf : h.Fillable o l) (hr : h.Shuffled h') (hp : l.Perm l') :
    h'.Fillable o l' := by
  have hkeys : ∀ e ∈ l, h.HeightLe (h.size + 1) e.1 ∧ h.Tidy e.1 := fun e he =>
    ⟨(hf.simple e he).heightLe, (hf.simple e he).tidy⟩
  exact ⟨fun e he => (hf.simple e (hp.mem_iff.2 he)).of_shuffled hr,
    fun e he hl => hf.outside e (hp.mem_iff.2 he) (hr.symm.leads hl),
    Unmoved.apart (unmoved _) hr hp hkeys hf.apart⟩

/-- Null and leaves do not lead to any container. -/
theorem of_leaves (hc : h.node o = .container c) (hl : ∀ e ∈ l, h.LeafOrNull e.1)
    (ha : h.Apart l) : h.Fillable o l := by
  have hpart : ∀ e ∈ l, ∀ q, h.Leads e.1 q → ∃ a, h.node q = .leaf a := by
    intro e he q hq
    generalize hk : e.1 = k at hq
    cases hq with
    | self => exact (hl e he q hk).2
    | @part p x q hx =>
      obtain ⟨-, a, ha⟩ := hl e he p hk
      simp [ha, Node.parts] at hx
  refine ⟨fun e he => ⟨(hl e he).heightLe.acyclic, fun q hq => ?_⟩, fun e he hq => ?_, ha⟩
  · obtain ⟨a, ha⟩ := hpart e he q hq
    simp [Apart, entries, ha]
  · obtain ⟨a, ha⟩ := hpart e he o hq
    cases hc.symm.trans ha

/-- A key that differs from those that are stored comes last. -/
theorem node_insert (hf : h.Fillable o (c.entries ++ e :: l)) (hc : h.node o = .container c)
    (ho : o < h.size) : ∃ c', (h.insert o e.1 e.2).2.node o = .container c' ∧
      c'.type = c.type ∧ c'.entries = c.entries ++ [e] := by
  refine ⟨_, node_insert_self e.1 e.2 hc ho, Container.type_insert .., ?_⟩
  rw [Container.entries_insert]
  refine Entries.insert_of_find?_eq_none (Entries.find?_eq_none_iff.2 fun e' he' => ?_)
  have hstored : e' ∈ c.entries ++ e :: l := List.mem_append_left _ he'
  have hnew : e ∈ c.entries ++ e :: l := List.mem_append_right _ List.mem_cons_self
  -- while the container is being inserted into, the keys compare as ever
  rw [← sameKey_of_kept (hf.simple e hnew).heightLe (fun _ _ => rfl) (fun _ _ => rfl)]
  · exact (List.pairwise_append.1 hf.apart).2.2 e' he' e List.mem_cons_self
  · rintro _ ⟨⟩
    exact ⟨hf.outside e hnew, hf.outside e' hstored⟩

/-- **A container holds what it is filled with**, in the order in which it is filled. -/
theorem node_fill (hf : h.Fillable o (c.entries ++ l)) (hc : h.node o = .container c)
    (ho : o < h.size) : ∃ c', (h.fill o l).node o = .container c' ∧ c'.type = c.type ∧
      c'.entries = c.entries ++ l := by
  induction l generalizing h c with
  | nil => exact ⟨c, hc, rfl, (List.append_nil _).symm⟩
  | cons e l ih =>
    obtain ⟨c₁, hc₁, htype, hentries⟩ := hf.node_insert hc ho
    have heq : c₁.entries ++ l = c.entries ++ e :: l := by rw [hentries, List.append_assoc]; rfl
    have hf₁ : (h.insert o e.1 e.2).2.Fillable o (c.entries ++ e :: l) :=
      hf.of_kept fun q => node_insert_of_ne e.1 e.2
    obtain ⟨c', hc', htype', hentries'⟩ := ih (heq ▸ hf₁) hc₁ (by rwa [size_insert])
    exact ⟨c', hc', htype'.trans htype, hentries'.trans heq⟩

end Fillable

/-! ## Heaps that are built alike -/

/-- Whether two heaps are built in the same steps, but for the order in which entries are put
    into a container. -/
inductive BuiltAlike : Heap → Heap → Prop
  | empty : BuiltAlike .empty .empty
  | alloc {h h' : Heap} (n : Node) : BuiltAlike h h' → BuiltAlike (h.alloc n).2 (h'.alloc n).2
  | fill {h h' : Heap} {o : ObjId} {c : Container} {l l' : List Entry} : BuiltAlike h h' →
      o < h.size → h.node o = .container c → h.Fillable o (c.entries ++ l) → l.Perm l' →
      BuiltAlike (h.fill o l) (h'.fill o l')

theorem Shuffled.alloc (hr : h.Shuffled h') (hs : h'.size = h.size) (n : Node) :
    (h.alloc n).2.Shuffled (h'.alloc n).2 := by
  intro o
  rcases lt_trichotomy o h.size with ho | rfl | ho
  · rw [node_alloc_of_lt n ho, node_alloc_of_lt n (hs ▸ ho)]
    exact hr o
  · rw [node_alloc_new, ← hs, node_alloc_new]
    exact .refl n
  · rw [node_of_size_le ((size_alloc h n).trans_le ho),
      node_of_size_le ((size_alloc h' n).trans_le (hs ▸ ho))]
    exact .refl _

/-- Entries that are put in in another order stand in another order. -/
theorem Shuffled.fill (hr : h.Shuffled h') (hs : h'.size = h.size)
    (hf : h.Fillable o (c.entries ++ l)) (hc : h.node o = .container c) (ho : o < h.size)
    (hp : l.Perm l') : (h.fill o l).Shuffled (h'.fill o l') := by
  intro q
  by_cases hq : q = o
  · subst hq
    obtain ⟨c', hc', htype, hperm⟩ := (hc ▸ hr q).exists_container
    have hperm' := hperm.append hp
    obtain ⟨d, hd, htd, hed⟩ := hf.node_fill hc ho
    obtain ⟨d', hd', htd', hed'⟩ := (hf.of_shuffled hr hperm').node_fill hc' (hs ▸ ho)
    rw [hd, hd']
    refine .container (htd'.trans (htype.trans htd.symm)) ?_
    rwa [hed, hed']
  · rw [node_fill_of_ne hq, node_fill_of_ne hq]
    exact hr q

/-- **Heaps that are built alike differ in the order of containers only.** -/
theorem BuiltAlike.shuffled (hb : h.BuiltAlike h') : h.Shuffled h' ∧ h'.size = h.size := by
  induction hb with
  | empty => exact ⟨.refl _, rfl⟩
  | alloc n _ ih => exact ⟨ih.1.alloc ih.2 n, by simp [ih.2]⟩
  | fill _ ho hc hf hp ih =>
    exact ⟨ih.1.fill ih.2 hf hc ho hp, size_fill.trans (ih.2.trans size_fill.symm)⟩

/-! ## Equality -/

/-- **Equality is an equivalence** on the values that lead into no cycle and to no container with
    a key twice, as none has whose keys are not equal.  It is the same in every heap in which
    containers list their entries in another order, and so in every heap that is built alike but
    for the order in which these were put in. -/
theorem equal_equivalence (h : Heap) :
    Equivalence (fun v w : {v // h.Simple v} => h.equal none v w = true) ∧
    (∀ v, h.Acyclic v → h.KeysUnequal v → h.Simple v) ∧
    (∀ h', h.BuiltAlike h' → h.Shuffled h') ∧
    ∀ h', h.Shuffled h' → ∀ v w, h.Simple v → h.Simple w →
      h'.equal none v w = h.equal none v w :=
  ⟨⟨fun v => h.equal_refl v, fun {v w} => v.2.equal_symm w.2,
      fun {v w u} => v.2.equal_trans w.2 u.2⟩,
    fun _ ha hk => ⟨ha, hk.tidy⟩, fun _ hb => hb.shuffled.1,
    fun _ hr _ _ hv hw => hv.equal_of_shuffled hw hr⟩

/-- A number, a NaN and two ordered containers without entries. -/
def unfilled : Heap := ⟨#[.leaf (.i32 1), .leaf (.f32 0x7fc00000), .container (.empty .linked),
  .container (.empty .linked)]⟩

/-- The containers are filled with the same entries, the NaN as one of the keys, in opposite
    orders; and the other way round. -/
theorem equal_equivalence_unfilled :
    let l : List Entry := [(some 1, some 0), (none, some 1)]
    let h := (unfilled.fill 2 l).fill 3 l.reverse
    let h' := (unfilled.fill 2 l.reverse).fill 3 l
    h.BuiltAlike h' ∧ h.Simple (some 2) ∧ h.Simple (some 3) ∧
      h.equal none (some 2) (some 3) = true ∧ h.equal none (some 3) (some 2) = true ∧
      h'.equal none (some 2) (some 3) = true := by
  intro l h h'
  have hb : unfilled.BuiltAlike unfilled := .alloc (.container (.empty .linked))
    (.alloc (.container (.empty .linked)) (.alloc (.leaf (.f32 0x7fc00000))
      (.alloc (.leaf (.i32 1)) .empty)))
  have hkeys : ∀ k : Heap, 1 < k.size → k.node 1 = .leaf (.f32 0x7fc00000) →
      ∀ e ∈ l, k.LeafOrNull e.1 := by
    intro k hk hn e he o ho
    rcases List.mem_pair.1 he with rfl | rfl
    · cases ho
      exact ⟨hk, _, hn⟩
    · cases ho
  have hl : unfilled.Fillable 2 l := .of_leaves rfl (hkeys _ (by decide) rfl) (by decide +kernel)
  have hl' : (unfilled.fill 2 l).Fillable 3 l.reverse := .of_leaves (node_fill_of_ne (by decide))
    (fun e he => hkeys _ (by decide) (node_fill_of_ne (by decide)) e (List.mem_reverse.1 he))
    (by decide +kernel)
  have hbuilt : h.BuiltAlike h' := (hb.fill (by decide) rfl hl (List.reverse_perm l).symm).fill
    (by decide) (node_fill_of_ne (by decide)) hl' (List.reverse_perm l)
  have hnodes : ∀ o < h.size, (h.entries o).Pairwise fun e e' => h.equal none e'.1 e.1 = false := by
    decide +kernel
  have hunequal : ∀ v, h.KeysUnequal v := by
    intro v o _
    by_cases ho : o < h.size
    · exact hnodes o ho
    · rw [entries_of_size_le (Nat.le_of_not_lt ho)]
      exact .nil
  obtain ⟨hequiv, hsimple, hshuffled, hsame⟩ := equal_equivalence h
  have h₂ := hsimple _ (by decide +kernel : h.HeightLe 2 (some 2)).acyclic (hunequal _)
  have h₃ := hsimple _ (by decide +kernel : h.HeightLe 2 (some 3)).acyclic (hunequal _)
  have hequal : h.equal none (some 2) (some 3) = true := by decide +kernel
  refine ⟨hbuilt, h₂, h₃, hequal, hequiv.symm (x := ⟨_, h₂⟩) (y := ⟨_, h₃⟩) hequal, ?_⟩
  rwa [hsame h' (hshuffled h' hbuilt) _ _ h₂ h₃]

end Heap

end GraphWire

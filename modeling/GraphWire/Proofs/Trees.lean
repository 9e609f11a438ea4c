/-
  Trees.

  A value is a tree if it leads to every object in one way only; a tree has no shared
  objects and no cycles.

  * `Heap.Path` are the ways from a value to the objects that it leads to, `Heap.Tree`
    says that no two of them end at the same object;
  * `Heap.Sprout` says that a value is a tree of the objects of a range, and how high;
  * `Heap.Sprout.insert`: a container that is filled with what was added after it
    stays such a tree.
-/
import GraphWire.Proofs.Contracts
import Mathlib.Data.List.Perm.Subperm

namespace GraphWire

/-! ## Insertions -/

namespace Entries

variable {test : Value → Bool} {l : List Entry}

/-- What replaces a value stands in its place. -/
theorem parts_insert_of_find? (k v : Value) (hf : find? test l ≠ none) :
    ((insert test k v l).flatMap fun (k, v) => [k, v]).Subperm
      ((l.flatMap fun (k, v) => [k, v]) ++ [v]) := by
  induction l with
  | nil => exact absurd rfl hf
  | cons x l ih =>
    obtain ⟨k', v'⟩ := x
    by_cases ht : test k' = true
    · rw [insert, if_pos ht]
      refine (List.subperm_cons k').2 ?_
      have hv : (v :: l.flatMap fun (k, v) => [k, v]).Subperm
          ((l.flatMap fun (k, v) => [k, v]) ++ [v]) :=
        (List.perm_append_singleton v _).symm.subperm
      exact hv.trans (List.sublist_cons_self v' _).subperm
    · rw [find?, if_neg ht] at hf
      rw [insert, if_neg ht]
      exact (List.subperm_cons k').2 ((List.subperm_cons v').2 (ih hf))

/-- What stands in a list after an insertion stood there or is inserted, none of it more
    often than that. -/
theorem parts_insert_subperm (test : Value → Bool) (k v : Value) (l : List Entry) :
    ((insert test k v l).flatMap fun (k, v) => [k, v]).Subperm
      ((l.flatMap fun (k, v) => [k, v]) ++ [k, v]) := by
  by_cases hf : find? test l = none
  · rw [insert_of_find?_eq_none hf, List.flatMap_append]
    exact .refl _
  · exact (parts_insert_of_find? k v hf).trans
      ((List.sublist_cons_self k [v]).append_left _).subperm

end Entries

/-! ## Trees -/

namespace Heap

/-- The ways from a value to the objects that it leads to: at each object, which of its
    parts to go on with. -/
inductive Path (h : Heap) : Value → List Nat → ObjId → Prop
  | here {o : ObjId} : Path h (some o) [] o
  | part {o p : ObjId} {x : Value} {i : Nat} {is : List Nat} : (h.node o).parts[i]? = some x →
      Path h x is p → Path h (some o) (i :: is) p

/-- Whether a value leads to every object in one way only. -/
def Tree (h : Heap) (v : Value) : Prop := ∀ is js o, h.Path v is o → h.Path v js o → is = js

/-- Whether two values lead to no object together. -/
def Severed (h : Heap) (x y : Value) : Prop := ∀ o, h.Leads x o → ¬h.Leads y o

/-- Whether the parts of every object that a value leads to lead to no object together. -/
def Branching (h : Heap) (v : Value) : Prop :=
  ∀ o, h.Leads v o → (h.node o).parts.Pairwise h.Severed

/-- Whether a value leads to objects of a range only, to each in one way, and is at most
    so high. -/
structure Sprout (h : Heap) (lo hi n : Nat) (v : Value) : Prop where
  height : h.HeightLe n v
  branching : h.Branching v
  range : ∀ o, h.Leads v o → lo ≤ o ∧ o < hi

variable {h h' : Heap} {v w x y : Value} {o p : ObjId} {lo hi mid n m : Nat}

theorem Path.leads {is : List Nat} (hp : h.Path v is o) : h.Leads v o := by
  induction hp with
  | here => exact .self
  | part hx _ ih => exact .part (List.mem_of_getElem? hx) ih

theorem Leads.exists_path (ho : h.Leads v o) : ∃ is, h.Path v is o := by
  induction ho with
  | self => exact ⟨[], .here⟩
  | part hx _ ih =>
    obtain ⟨i, hi⟩ := List.getElem?_of_mem hx
    obtain ⟨is, his⟩ := ih
    exact ⟨i :: is, .part hi his⟩

theorem Path.append {is js : List Nat} (hp : h.Path v is o) (hq : h.Path (some o) js p) :
    h.Path v (is ++ js) p := by
  induction hp with
  | here => exact hq
  | part hx _ ih => exact .part hx (ih hq)

/-- **A tree has no cycle.** -/
theorem Tree.not_leads (ht : h.Tree v) (ho : h.Leads v o) (hx : x ∈ (h.node o).parts) :
    ¬h.Leads x o := by
  intro hl
  obtain ⟨is, his⟩ := ho.exists_path
  obtain ⟨js, hjs⟩ := hl.exists_path
  obtain ⟨i, hi⟩ := List.getElem?_of_mem hx
  have heq := ht _ _ _ his (his.append (.part hi hjs))
  simp at heq

theorem Severed.symm (hs : h.Severed x y) : h.Severed y x := fun o hy hx => hs o hx hy

theorem Branching.part (hb : h.Branching (some o)) (hx : x ∈ (h.node o).parts) :
    h.Branching x :=
  fun p hp => hb p (.part hx hp)

/-- **What branches and ends is a tree.** -/
theorem Branching.tree (hb : h.Branching v) (hv : h.HeightLe n v) : h.Tree v := by
  intro is js o his
  induction his generalizing js n with
  | here =>
    intro hjs
    cases hjs with
    | here => rfl
    | part hx hp => exact absurd hp.leads (hv.not_leads (List.mem_of_getElem? hx))
  | @part o p x i is hx hp ih =>
    intro hjs
    cases hjs with
    | here => exact absurd hp.leads (hv.not_leads (List.mem_of_getElem? hx))
    | @part _ _ y j js hy hq =>
      have hxm := List.mem_of_getElem? hx
      obtain ⟨n, rfl⟩ := hv.pos
      by_cases hij : i = j
      · subst hij
        cases hx.symm.trans hy
        rw [ih (hb.part hxm) (hv.part hxm) js hq]
      · -- two parts that lead to the same object
        have hall := List.pairwise_iff_getElem.1 (hb o .self)
        obtain ⟨hi, hxi⟩ := List.getElem?_eq_some_iff.1 hx
        obtain ⟨hj, hyj⟩ := List.getElem?_eq_some_iff.1 hy
        rcases Nat.lt_or_gt_of_ne hij with hlt | hlt
        · exact absurd hq.leads (hyj ▸ hall i j hi hj hlt p (hxi ▸ hp.leads))
        · exact absurd hp.leads (hxi ▸ hall j i hj hi hlt p (hyj ▸ hq.leads))

theorem Sprout.tree (hs : h.Sprout lo hi n v) : h.Tree v := hs.branching.tree hs.height

/-! ### What is kept -/

/-- What a value leads to depends on nothing else. -/
theorem leads_iff_of_kept (hk : ∀ o, h.Leads v o → h'.node o = h.node o) :
    h'.Leads v o ↔ h.Leads v o := by
  constructor
  · intro hl
    induction hl with
    | self => exact .self
    | part hx _ ih =>
      rw [hk _ .self] at hx
      exact .part hx (ih fun o ho => hk o (.part hx ho))
  · intro hl
    induction hl with
    | self => exact .self
    | part hx _ ih => exact .part (hk _ .self ▸ hx) (ih fun o ho => hk o (.part hx ho))

theorem HeightLe.of_kept (hv : h.HeightLe n v) (hk : ∀ o, h.Leads v o → h'.node o = h.node o) :
    h'.HeightLe n v := by
  induction n generalizing v with
  | zero =>
    cases v with
    | none => exact heightLe_none
    | some o => exact hv.elim
  | succ n ih =>
    cases v with
    | none => exact heightLe_none
    | some o =>
      intro x hx
      rw [hk o .self] at hx
      exact ih (hv.part hx) fun p hp => hk p (.part hx hp)

theorem Branching.of_kept (hb : h.Branching v) (hk : ∀ o, h.Leads v o → h'.node o = h.node o) :
    h'.Branching v := by
  intro o ho
  rw [leads_iff_of_kept hk] at ho
  rw [hk o ho]
  refine (hb o ho).imp_of_mem fun hx hy hs p hp hq => ?_
  rw [leads_iff_of_kept fun q hq => hk q (ho.trans (.part hx hq))] at hp
  rw [leads_iff_of_kept fun q hq => hk q (ho.trans (.part hy hq))] at hq
  exact hs p hp hq

theorem Sprout.of_kept (hs : h.Sprout lo hi n v)
    (hk : ∀ o, lo ≤ o → o < hi → h'.node o = h.node o) : h'.Sprout lo hi n v := by
  have hkept : ∀ o, h.Leads v o → h'.node o = h.node o := fun o ho =>
    hk o (hs.range o ho).1 (hs.range o ho).2
  refine ⟨hs.height.of_kept hkept, hs.branching.of_kept hkept, fun o ho => ?_⟩
  exact hs.range o ((leads_iff_of_kept hkept).1 ho)

theorem Sprout.later (hs : h.Sprout lo hi n v) (hhi : hi ≤ h.size) (hx : h.Extends h') :
    h'.Sprout lo hi n v :=
  hs.of_kept fun o _ ho => hx.node o (ho.trans_le hhi)

theorem hashInput_of_kept (hk : ∀ o, h.Leads v o → h'.node o = h.node o) :
    h'.hashInput v = h.hashInput v := by
  cases v with
  | none => rfl
  | some o => simp only [hashInput, hk o .self]

/-- Values compare as they do while a container is inserted into that they do not lead to. -/
theorem equalTo_of_kept {busy : Option ObjId} (hv : ∀ o, h.Leads v o → h'.node o = h.node o)
    (hw : ∀ o, h.Leads w o → h'.node o = h.node o)
    (hb : ∀ o, busy = some o → ¬h.Leads v o ∧ ¬h.Leads w o) (n : Nat) :
    h'.equalTo none n v w = h.equalTo busy n v w := by
  induction n generalizing v w with
  | zero => cases v <;> cases w <;> rfl
  | succ n ih =>
    cases v with
    | none => cases w <;> rfl
    | some o =>
      cases w with
      | none => rfl
      | some p =>
        simp only [equalTo]
        congr 1
        refine equalObjects_of_nodes (hv o .self) (hw p .self) (fun q hq => ?_) fun x hx y hy => ?_
        · refine ⟨?_, ?_⟩
          · rintro rfl
            exact (hb q hq).1 .self
          · rintro rfl
            exact (hb q hq).2 .self
        · have hvx : ∀ q, h.Leads x q → h'.node q = h.node q := fun q hq => hv q (.part hx hq)
          have hwy : ∀ q, h.Leads y q → h'.node q = h.node q := fun q hq => hw q (.part hy hq)
          refine ⟨ih hvx hwy fun q hq => ?_, hashInput_of_kept hvx, hashInput_of_kept hwy⟩
          exact ⟨fun hl => (hb q hq).1 (.part hx hl), fun hl => (hb q hq).2 (.part hy hl)⟩

/-- So do keys, if the first has some height. -/
theorem sameKey_of_kept {busy : Option ObjId} (hn : h.HeightLe n v)
    (hv : ∀ o, h.Leads v o → h'.node o = h.node o) (hw : ∀ o, h.Leads w o → h'.node o = h.node o)
    (hb : ∀ o, busy = some o → ¬h.Leads v o ∧ ¬h.Leads w o) :
    h'.sameKey none v w = h.sameKey busy v w := by
  -- both heaps look deep enough
  let m := max h.depthBound h'.depthBound
  have hm : h.equalTo busy m v w = h.equal busy v w :=
    hn.le_depthBound.equalTo_eq (le_max_left _ _) w
  have hm' : h'.equalTo none m v w = h'.equal none v w :=
    (hn.of_kept hv).le_depthBound.equalTo_eq (le_max_right _ _) w
  unfold sameKey
  rw [← hm, ← hm', equalTo_of_kept hv hw hb m, hashInput_of_kept hv, hashInput_of_kept hw]

/-- Keys of some height differ as they did. -/
theorem Apart.of_kept {l : List Entry} (hl : h.Apart l) (hv : ∀ e ∈ l, h.HeightLe n e.1)
    (hk : ∀ e ∈ l, ∀ o, h.Leads e.1 o → h'.node o = h.node o) : h'.Apart l :=
  hl.imp_of_mem fun {e e'} he he' hne => by
    rw [← hne]
    exact sameKey_of_kept (hv e' he') (hk e' he') (hk e he) (by simp)

theorem Tidy.of_kept (tv : h.Tidy v) (hv : h.HeightLe n v)
    (hk : ∀ o, h.Leads v o → h'.node o = h.node o) : h'.Tidy v := by
  intro o ho
  rw [leads_iff_of_kept hk] at ho
  rw [entries_congr (hk o ho)]
  have ho' : h.HeightLe (n + 1) (some o) := (hv.leads ho).mono (Nat.le_succ n)
  exact (tv o ho).of_kept (fun e he => ho'.part (fst_mem_parts_of_entries he))
    fun e he p hp => hk p (ho.trans (.part (fst_mem_parts_of_entries he) hp))

/-! ### What is added -/

theorem Sprout.wider {lo' hi' : Nat} (hs : h.Sprout lo hi n v) (hlo : lo' ≤ lo) (hhi : hi ≤ hi') :
    h.Sprout lo' hi' n v where
  height := hs.height
  branching := hs.branching
  range o ho := ⟨hlo.trans (hs.range o ho).1, (hs.range o ho).2.trans_le hhi⟩

theorem sprout_none : h.Sprout lo hi n none where
  height := heightLe_none
  branching o ho := by cases ho
  range o ho := by cases ho

/-- Where a value sprouts from its own object, the parts sprout from later ones. -/
theorem Sprout.part (ho : h.Sprout o hi (n + 1) (some o)) (hx : x ∈ (h.node o).parts) :
    h.Sprout (o + 1) hi n x where
  height := ho.height.part hx
  branching := ho.branching.part hx
  range p hp := by
    have hne : o ≠ p := fun he => ho.height.not_leads hx (he ▸ hp)
    obtain ⟨hle, hlt⟩ := ho.range p (.part hx hp)
    exact ⟨Nat.lt_of_le_of_ne hle hne, hlt⟩

theorem Sprout.severed (hx : h.Sprout lo mid n x) (hy : h.Sprout mid hi m y) : h.Severed x y :=
  fun o ho ho' => absurd (hx.range o ho).2 (not_lt.2 (hy.range o ho').1)

/-- **An object sprouts** when it is made one of parts that sprout after it apart from each
    other, none of them used twice. -/
theorem sprout_of_parts {l : List Value} (hn : ∀ p, p ≠ o → h'.node p = h.node p)
    (hsub : (h'.node o).parts.Subperm l) (hl : ∀ x ∈ l, h.Sprout (o + 1) hi n x)
    (hsev : l.Pairwise h.Severed) (hlt : o < hi) : h'.Sprout o hi (n + 1) (some o) := by
  -- no part leads to the object that changes
  have hkept : ∀ x ∈ l, ∀ p, h.Leads x p → h'.node p = h.node p := fun x hx p hp =>
    hn p (Nat.ne_of_gt ((hl x hx).range p hp).1)
  refine ⟨fun x hx => ?_, fun p hp => ?_, fun p hp => ?_⟩
  · exact (hl x (hsub.subset hx)).height.of_kept (hkept x (hsub.subset hx))
  · cases hp with
    | self =>
      obtain ⟨l', hperm, hl'⟩ := hsub
      have hpair := (hperm.pairwise_iff fun hs => Severed.symm hs).1 (hsev.sublist hl')
      have hmem : ∀ x ∈ (h'.node o).parts, x ∈ l := fun x hx => hl'.subset (hperm.mem_iff.2 hx)
      refine hpair.imp_of_mem fun hx hy hs q hq hq' => hs q ?_ ?_
      · exact (leads_iff_of_kept (hkept _ (hmem _ hx))).1 hq
      · exact (leads_iff_of_kept (hkept _ (hmem _ hy))).1 hq'
    | part hx hp =>
      have hx := hsub.subset hx
      exact (hl _ hx).branching.of_kept (hkept _ hx) p hp
  · cases hp with
    | self => exact ⟨le_rfl, hlt⟩
    | part hx hp =>
      have hx := hsub.subset hx
      have hrange := (hl _ hx).range p ((leads_iff_of_kept (hkept _ hx)).1 hp)
      exact ⟨Nat.le_of_succ_le hrange.1, hrange.2⟩

/-- What has no parts sprouts alone. -/
theorem sprout_of_parts_nil (hn : (h.node o).parts = []) : h.Sprout o (o + 1) (n + 1) (some o) :=
  sprout_of_parts (fun _ _ => rfl) (hn ▸ .refl _) (by simp) .nil (Nat.lt_succ_self o)

theorem parts_insert {c : Container} (hc : h.node o = .container c) (ho : o < h.size)
    (k v : Value) : ((h.insert o k v).2.node o).parts =
      (Entries.insert (h.sameKey (some o) k) k v c.entries).flatMap fun (k, v) => [k, v] := by
  rw [node_insert_self k v hc ho]
  show List.flatMap _ (c.insert _ k v).2.entries = _
  rw [Container.entries_insert]

/-- What does not lead to a container is kept when something is put into it. -/
theorem node_insert_of_leads {k : Value} (hx : ¬h.Leads x o) :
    ∀ q, h.Leads x q → (h.insert o k v).2.node q = h.node q := fun _ hq =>
  node_insert_of_ne k v fun he => hx (he ▸ hq)

/-- **The keys of a container still differ** when something is put into it, if they have some
    height and do not lead to it. -/
theorem apart_insert {k : Value} {c : Container} (hc : h.node o = .container c) (hlt : o < h.size)
    (ha : h.Apart (h.entries o)) (hl : ∀ e ∈ c.entries, h.HeightLe n e.1 ∧ ¬h.Leads e.1 o)
    (hk : h.HeightLe n k ∧ ¬h.Leads k o) :
    (h.insert o k v).2.Apart ((h.insert o k v).2.entries o) := by
  rw [entries_of_node hc] at ha
  rw [entries_insert_self k v hc hlt]
  have hkept := ha.of_kept (fun e he => (hl e he).1) fun e he =>
    node_insert_of_leads (k := k) (v := v) (hl e he).2
  refine hkept.insert k v fun e he => ?_
  refine sameKey_of_kept hk.1 (node_insert_of_leads hk.2) (node_insert_of_leads (hl e he).2) ?_
  rintro _ ⟨⟩
  exact ⟨hk.2, (hl e he).2⟩

/-- A container still sprouts when the parts that an insertion adds sprout after it, apart
    from each other and from those that there are. -/
theorem Sprout.grow {k : Value} {l : List Value} (ho : h.Sprout o lo (n + 1) (some o))
    (hsub : ((h.insert o k v).2.node o).parts.Subperm ((h.node o).parts ++ l))
    (hl : ∀ x ∈ l, h.Sprout (o + 1) hi n x) (hsev : l.Pairwise h.Severed)
    (hold : ∀ x ∈ (h.node o).parts, ∀ y ∈ l, h.Severed x y) (hle : lo ≤ hi) :
    (h.insert o k v).2.Sprout o hi (n + 1) (some o) := by
  refine sprout_of_parts (fun p hp => node_insert_of_ne k v hp) hsub (fun x hx => ?_) ?_
    ((ho.range o .self).2.trans_le hle)
  · rcases List.mem_append.1 hx with hx | hx
    · exact (ho.part hx).wider le_rfl hle
    · exact hl x hx
  · exact List.pairwise_append.2 ⟨ho.branching o .self, hsev, hold⟩

/-- **A container sprouts further** when what sprouted after it is put into it. -/
theorem Sprout.insert {k : Value} {c : Container} (ho : h.Sprout o lo (n + 1) (some o))
    (hc : h.node o = .container c) (hlt : o < h.size) (hk : h.Sprout lo mid n k)
    (hv : h.Sprout mid hi n v) (hlo : lo ≤ mid) (hhi : mid ≤ hi) :
    (h.insert o k v).2.Sprout o hi (n + 1) (some o) := by
  have hself : o + 1 ≤ lo := (ho.range o .self).2
  have hsub : ((h.insert o k v).2.node o).parts.Subperm ((h.node o).parts ++ [k, v]) := by
    rw [parts_insert hc hlt, hc]
    exact Entries.parts_insert_subperm _ k v c.entries
  refine ho.grow hsub (fun x hx => ?_) (List.pairwise_pair.2 (hk.severed hv)) (fun x hx y hy => ?_)
    (hlo.trans hhi)
  · rcases List.mem_pair.1 hx with rfl | rfl
    · exact hk.wider hself hhi
    · exact hv.wider (hself.trans hlo) le_rfl
  · rcases List.mem_pair.1 hy with rfl | rfl
    · exact (ho.part hx).severed hk
    · exact ((ho.part hx).wider le_rfl hlo).severed hv

end Heap

end GraphWire

/-
  Equality of values.

  On values of some height a comparison is settled level by level
  (`Heap.equal_some`).  If no key of a container is the same as one before it,
  here and all the way down (`Heap.Tidy`), equality is symmetric and transitive
  (`Heap.HeightLe.equal_symm`, `Heap.HeightLe.equal_trans`), so that a key of
  another container is the same as at most one of the keys.
-/
import GraphWire.Graph.Equality
import GraphWire.Proofs.Heights
import Mathlib.Data.List.Forall2

namespace GraphWire

/-! ## Leaves -/

theorem equalFloats_symm {w infinity : Nat} {a b : BitVec w} (h : equalFloats infinity a b = true) :
    equalFloats infinity b a = true := by
  simp only [equalFloats, Bool.and_eq_true, decide_eq_true_eq, Bool.or_eq_true, beq_iff_eq] at h ⊢
  obtain ⟨⟨ha, hb⟩, hab⟩ := h
  exact ⟨⟨hb, ha⟩, hab.imp Eq.symm And.symm⟩

theorem equalFloats_trans {w infinity : Nat} {a b c : BitVec w}
    (hab : equalFloats infinity a b = true) (hbc : equalFloats infinity b c = true) :
    equalFloats infinity a c = true := by
  simp only [equalFloats, Bool.and_eq_true, decide_eq_true_eq, Bool.or_eq_true, beq_iff_eq]
    at hab hbc ⊢
  obtain ⟨⟨ha, -⟩, hab⟩ := hab
  obtain ⟨⟨-, hc⟩, hbc⟩ := hbc
  refine ⟨⟨ha, hc⟩, ?_⟩
  rcases hab with rfl | hab
  · exact hbc
  rcases hbc with rfl | hbc
  · exact Or.inr hab
  · exact Or.inr ⟨hab.1, hbc.2⟩

namespace Leaf

/-- Only floats may be equal without being the same. -/
theorem eq_or_of_equal {a b : Leaf} (h : a.equal b = true) : a = b ∨
    (∃ x y, a = f32 x ∧ b = f32 y ∧ equalFloats 0x7f800000 x y = true) ∨
    ∃ x y, a = f64 x ∧ b = f64 y ∧ equalFloats 0x7ff0000000000000 x y = true := by
  unfold equal at h
  split at h
  · next x y => exact Or.inr (Or.inl ⟨x, y, rfl, rfl, h⟩)
  · next x y => exact Or.inr (Or.inr ⟨x, y, rfl, rfl, h⟩)
  · exact Or.inl (beq_iff_eq.1 h)

theorem equal_symm {a b : Leaf} (h : a.equal b = true) : b.equal a = true := by
  rcases eq_or_of_equal h with rfl | ⟨x, y, rfl, rfl, h'⟩ | ⟨x, y, rfl, rfl, h'⟩
  · exact h
  · exact equalFloats_symm h'
  · exact equalFloats_symm h'

theorem equal_trans {a b c : Leaf} (hab : a.equal b = true) (hbc : b.equal c = true) :
    a.equal c = true := by
  rcases eq_or_of_equal hab with rfl | ⟨x, y, rfl, rfl, h⟩ | ⟨x, y, rfl, rfl, h⟩
  · exact hbc
  · rcases eq_or_of_equal hbc with rfl | ⟨_, z, ⟨⟩, rfl, h'⟩ | ⟨_, z, ⟨⟩, -⟩
    · exact hab
    · exact equalFloats_trans h h'
  · rcases eq_or_of_equal hbc with rfl | ⟨_, z, ⟨⟩, -⟩ | ⟨_, z, ⟨⟩, rfl, h'⟩
    · exact hab
    · exact equalFloats_trans h h'

end Leaf

/-! ## Lists of pairs -/

namespace Entries

variable {α : Type} {test : Value → Bool} {l : List (Value × α)} {k : Value} {a : α}

theorem mem_of_find? (h : find? test l = some a) : ∃ k, (k, a) ∈ l ∧ test k = true := by
  induction l with
  | nil => cases h
  | cons e l ih =>
    simp only [find?] at h
    split at h
    · next ht =>
      cases h
      exact ⟨e.1, List.mem_cons_self, ht⟩
    · obtain ⟨k, hk, ht⟩ := ih h
      exact ⟨k, List.mem_cons_of_mem _ hk, ht⟩

theorem find?_eq_none_iff : find? test l = none ↔ ∀ e ∈ l, test e.1 = false := by
  induction l with
  | nil => simp [find?]
  | cons e l ih =>
    by_cases he : test e.1
    · simp [find?, he]
    · simp [find?, he, ih]

/-- Where only one key passes the test, it is the one that is found. -/
theorem find?_of_mem (hk : (k, a) ∈ l) (ht : test k = true)
    (hl : l.Pairwise fun e e' => ¬(test e.1 = true ∧ test e'.1 = true)) :
    find? test l = some a := by
  induction l with
  | nil => cases hk
  | cons e l ih =>
    rw [List.pairwise_cons] at hl
    by_cases he : test e.1
    · rcases List.mem_cons.1 hk with rfl | hk
      · simp [find?, ht]
      · exact absurd ⟨he, ht⟩ (hl.1 _ hk)
    · rcases List.mem_cons.1 hk with rfl | hk
      · exact absurd ht he
      · simp [find?, he, ih hk hl.2]

theorem find?_congr {test' : Value → Bool} (h : ∀ e ∈ l, test e.1 = test' e.1) :
    find? test l = find? test' l := by
  induction l with
  | nil => rfl
  | cons e l ih =>
    obtain ⟨he, hl⟩ := List.forall_mem_cons.1 h
    simp only [find?, he, ih hl]

/-- A key that is found stays where it is. -/
theorem map_fst_insert (h : find? test l ≠ none) :
    (insert test k a l).map Prod.fst = l.map Prod.fst := by
  induction l with
  | nil => exact absurd rfl h
  | cons e l ih =>
    by_cases ht : test e.1 = true
    · simp [insert, ht]
    · simp only [find?, ht] at h
      simp [insert, ht, ih h]

/-- What an insertion leaves comes from what was there or from what is inserted. -/
theorem mem_insert {v : Value} {l : List Entry} {e : Entry} (he : e ∈ insert test k v l) :
    (e.1 = k ∨ ∃ e' ∈ l, e'.1 = e.1) ∧ (e.2 = v ∨ e ∈ l) := by
  induction l with
  | nil =>
    cases List.mem_singleton.1 he
    exact ⟨Or.inl rfl, Or.inl rfl⟩
  | cons e' l ih =>
    simp only [insert] at he
    split at he
    · rcases List.mem_cons.1 he with rfl | he
      · exact ⟨Or.inr ⟨e', List.mem_cons_self, rfl⟩, Or.inl rfl⟩
      · exact ⟨Or.inr ⟨e, List.mem_cons_of_mem _ he, rfl⟩, Or.inr (List.mem_cons_of_mem _ he)⟩
    · rcases List.mem_cons.1 he with rfl | he
      · exact ⟨Or.inr ⟨_, List.mem_cons_self, rfl⟩, Or.inr List.mem_cons_self⟩
      · obtain ⟨h₁, h₂⟩ := ih he
        refine ⟨h₁.imp_right ?_, h₂.imp_right (List.mem_cons_of_mem _)⟩
        rintro ⟨x, hx, hxe⟩
        exact ⟨x, List.mem_cons_of_mem _ hx, hxe⟩

end Entries

/-- If all elements of a list have partners in another that is no longer, and no
    two have a common one, then all elements of the other are partners. -/
theorem exists_partner {α β : Type} {P : α → β → Prop} {l : List α} {l' : List β}
    (hlen : l'.length ≤ l.length) (hp : ∀ a ∈ l, ∃ b ∈ l', P a b)
    (hl : l.Pairwise fun a a' => ∀ b ∈ l', ¬(P a b ∧ P a' b)) : ∀ b ∈ l', ∃ a ∈ l, P a b := by
  induction l generalizing l' with
  | nil =>
    intro b hb
    rw [List.length_nil, Nat.le_zero, List.length_eq_zero_iff] at hlen
    simp [hlen] at hb
  | cons a l ih =>
    obtain ⟨b, hb, hab⟩ := hp a List.mem_cons_self
    obtain ⟨s, t, rfl⟩ := List.append_of_mem hb
    rw [List.pairwise_cons] at hl
    have hsub : ∀ b' ∈ s ++ t, b' ∈ s ++ b :: t := by
      intro b' hb'
      rcases List.mem_append.1 hb' with hb' | hb'
      · exact List.mem_append_left _ hb'
      · exact List.mem_append_right _ (List.mem_cons_of_mem _ hb')
    -- the other elements find theirs among what is left without `b`
    have hp' : ∀ a' ∈ l, ∃ b' ∈ s ++ t, P a' b' := by
      intro a' ha'
      obtain ⟨b', hb', hab'⟩ := hp a' (List.mem_cons_of_mem _ ha')
      refine ⟨b', ?_, hab'⟩
      rcases List.mem_append.1 hb' with hb'' | hb''
      · exact List.mem_append_left _ hb''
      · rcases List.mem_cons.1 hb'' with rfl | hb''
        · exact absurd ⟨hab, hab'⟩ (hl.1 a' ha' b' hb')
        · exact List.mem_append_right _ hb''
    have hrest := ih (by simp at hlen ⊢; omega) hp' (hl.2.imp fun h b' hb' => h b' (hsub b' hb'))
    intro b' hb'
    rcases List.mem_append.1 hb' with hb'' | hb''
    · obtain ⟨a', ha', h'⟩ := hrest b' (List.mem_append_left _ hb'')
      exact ⟨a', List.mem_cons_of_mem _ ha', h'⟩
    · rcases List.mem_cons.1 hb'' with rfl | hb''
      · exact ⟨a, List.mem_cons_self, hab⟩
      · obtain ⟨a', ha', h'⟩ := hrest b' (List.mem_append_right _ hb'')
        exact ⟨a', List.mem_cons_of_mem _ ha', h'⟩

namespace Heap

variable {h : Heap} {busy : Option ObjId} {v w u k k' : Value} {o p q : ObjId} {m n : Nat}

/-! ## One level -/

/-- Containers hash by their type only. -/
theorem hashInput_eq_of_type {h' : Heap} {c d : Container} (hc : h.node o = .container c)
    (hd : h'.node p = .container d) (ht : c.type = d.type) :
    h.hashInput (some o) = h'.hashInput (some p) := by
  simp only [hashInput, hc, hd]
  cases c <;> cases d <;> first | rfl | cases ht

theorem equalContainers_iff {eq : Value → Value → Bool} {c d : Container} :
    h.equalContainers eq c d = true ↔ c.type = d.type ∧ c.entries.length = d.entries.length ∧
      ∀ e ∈ c.entries, ∃ x, Entries.find? (fun k => eq e.1 k && h.hashInput e.1 == h.hashInput k)
        d.entries = some x ∧ eq e.2 x = true := by
  unfold equalContainers
  rw [Bool.and_eq_true, Bool.and_eq_true, beq_iff_eq, beq_iff_eq, List.all_eq_true, and_assoc]
  refine and_congr_right fun _ => and_congr_right fun _ => forall₂_congr fun e _ => ?_
  simp only [Container.find?_eq]
  split
  · next x hx => simp [hx]
  · next hx => simp [hx]

/-- A comparison of objects looks at how the parts of the first compare only. -/
theorem equalObjects_congr {eq eq' : Value → Value → Bool}
    (h' : ∀ x ∈ (h.node o).parts, ∀ y, eq x y = eq' x y) :
    h.equalObjects busy eq o p = h.equalObjects busy eq' o p := by
  unfold equalObjects
  cases ho : h.node o with
  | leaf a | octet a => cases h.node p <;> rfl
  | container c =>
    cases hp : h.node p with
    | container d =>
      simp only []
      congr 1
      unfold equalContainers
      congr 1
      rw [Bool.eq_iff_iff, List.all_eq_true, List.all_eq_true]
      refine forall₂_congr fun e he => ?_
      have hk : ∀ y, eq e.1 y = eq' e.1 y := h' _ (fst_mem_parts ho he)
      have hv : ∀ y, eq e.2 y = eq' e.2 y := h' _ (snd_mem_parts ho he)
      simp only [hk, hv]
    | _ => rfl
  | record fs =>
    cases hp : h.node p with
    | record gs =>
      simp only []
      congr 1
      rw [Bool.eq_iff_iff, List.all_eq_true, List.all_eq_true]
      refine forall₂_congr fun e he => ?_
      rw [h' e.1 (by rw [ho]; exact (List.of_mem_zip he).1)]
    | _ => rfl

/-- A comparison of objects looks at nothing but the two and at how their parts compare. -/
theorem equalObjects_of_nodes {h' : Heap} {eq eq' : Value → Value → Bool}
    (ho : h'.node o = h.node o) (hp : h'.node p = h.node p)
    (hb : ∀ q, busy = some q → q ≠ o ∧ q ≠ p)
    (he : ∀ x ∈ (h.node o).parts, ∀ y ∈ (h.node p).parts,
      eq' x y = eq x y ∧ h'.hashInput x = h.hashInput x ∧ h'.hashInput y = h.hashInput y) :
    h'.equalObjects none eq' o p = h.equalObjects busy eq o p := by
  unfold equalObjects
  rw [ho, hp]
  cases hno : h.node o with
  | leaf a | octet a => cases h.node p <;> rfl
  | container c =>
    cases hnp : h.node p with
    | container d =>
      have hidle : (busy != some o && busy != some p) = true := by
        simp only [Bool.and_eq_true, bne_iff_ne]
        exact ⟨fun h => (hb o h).1 rfl, fun h => (hb p h).2 rfl⟩
      show h'.equalContainers eq' c d = _
      simp only [hidle, Bool.true_and]
      rw [Bool.eq_iff_iff, equalContainers_iff, equalContainers_iff]
      refine and_congr_right fun _ => and_congr_right fun _ => forall₂_congr fun e hm => ?_
      have hfind : Entries.find? (fun k => eq' e.1 k && h'.hashInput e.1 == h'.hashInput k)
          d.entries = Entries.find? (fun k => eq e.1 k && h.hashInput e.1 == h.hashInput k)
            d.entries := Entries.find?_congr fun e' hm' => by
        obtain ⟨hk, h₁, h₂⟩ := he e.1 (fst_mem_parts hno hm) e'.1 (fst_mem_parts hnp hm')
        rw [hk, h₁, h₂]
      rw [hfind]
      refine exists_congr fun x => and_congr_right fun hx => ?_
      obtain ⟨k, hk, -⟩ := Entries.mem_of_find? hx
      rw [(he e.2 (snd_mem_parts hno hm) x (snd_mem_parts hnp hk)).1]
    | _ => rfl
  | record fs =>
    cases hnp : h.node p with
    | record gs =>
      simp only []
      congr 1
      rw [Bool.eq_iff_iff, List.all_eq_true, List.all_eq_true]
      refine forall₂_congr fun e hm => ?_
      rw [(he e.1 (by rw [hno]; exact (List.of_mem_zip hm).1) e.2
        (by rw [hnp]; exact (List.of_mem_zip hm).2)).1]
    | _ => rfl

/-! ## All levels -/

/-- Looking deeper than a value is high changes nothing. -/
theorem HeightLe.equalTo_eq (hv : h.HeightLe n v) (hm : n ≤ m) (w : Value) :
    h.equalTo busy m v w = h.equalTo busy n v w := by
  induction n generalizing m v w with
  | zero =>
    cases v with
    | none => cases m <;> cases w <;> rfl
    | some o => exact hv.elim
  | succ n ih =>
    obtain ⟨m, rfl⟩ : ∃ j, m = j + 1 := ⟨m - 1, by omega⟩
    cases v with
    | none => cases w <;> rfl
    | some o =>
      cases w with
      | none => rfl
      | some p =>
        simp only [equalTo]
        rw [equalObjects_congr fun x hx y => ih (hv.part hx) (by omega) y]

theorem HeightLe.le_depthBound (hv : h.HeightLe n v) : h.HeightLe h.depthBound v :=
  hv.le_size.mono (Nat.le_mul_of_pos_left _ (Nat.succ_pos _))

/-- **A comparison is settled one level down.** -/
theorem equal_some (ho : h.HeightLe n (some o)) : h.equal busy (some o) (some p) =
    (o == p || h.equalObjects busy (h.equal busy) o p) := by
  have ho := ho.le_depthBound
  unfold equal
  obtain ⟨m, hm⟩ := ho.pos
  have hpart : ∀ x ∈ (h.node o).parts, h.HeightLe m x := fun x hx => (hm ▸ ho).part hx
  rw [hm]
  simp only [equalTo]
  rw [equalObjects_congr fun x hx y => ((hpart x hx).equalTo_eq (Nat.le_succ m) y).symm]

theorem depthBound_pos : ∃ n, h.depthBound = n + 1 :=
  ⟨h.depthBound - 1, (Nat.succ_pred_eq_of_pos (Nat.mul_pos h.size.succ_pos h.size.succ_pos)).symm⟩

theorem equal_none_left : h.equal busy none w = true ↔ w = none := by
  unfold equal
  cases w with
  | none => simp [equalTo]
  | some p =>
    obtain ⟨n, hn⟩ := h.depthBound_pos
    simp [hn, equalTo]

theorem equal_none_right : h.equal busy v none = true ↔ v = none := by
  unfold equal
  cases v with
  | none => simp [equalTo]
  | some p =>
    obtain ⟨n, hn⟩ := h.depthBound_pos
    simp [hn, equalTo]

theorem equal_self : h.equal busy (some o) (some o) = true := by
  unfold equal
  cases h.depthBound <;> simp [equalTo]

theorem sameKey_iff :
    h.sameKey busy k k' = true ↔ h.equal busy k k' = true ∧ h.hashInput k = h.hashInput k' := by
  simp [sameKey]

/-! ## Keys that differ -/

/-- Whether no key is the same as one before it. -/
def Apart (h : Heap) (l : List Entry) : Prop :=
  l.Pairwise fun e e' => h.sameKey none e'.1 e.1 = false

instance (l : List Entry) : Decidable (h.Apart l) :=
  inferInstanceAs (Decidable (l.Pairwise fun e e' => h.sameKey none e'.1 e.1 = false))

/-- Only the keys matter. -/
theorem Apart.of_keys {l l' : List Entry} (hl : h.Apart l)
    (he : l'.map Prod.fst = l.map Prod.fst) : h.Apart l' := by
  have ha : (l.map Prod.fst).Pairwise fun k k' => h.sameKey none k' k = false :=
    List.pairwise_map.2 hl
  exact List.pairwise_map.1 (he ▸ ha)

/-- **An insertion keeps the keys different**, if the test of the stored keys finds the key
    that is the same. -/
theorem Apart.insert {test : Value → Bool} {l : List Entry} (hl : h.Apart l) (k v : Value)
    (ht : ∀ e ∈ l, h.sameKey none k e.1 = test e.1) : h.Apart (Entries.insert test k v l) := by
  cases hf : Entries.find? test l with
  | some x => exact hl.of_keys (Entries.map_fst_insert (by simp [hf]))
  | none =>
    rw [Entries.insert_of_find?_eq_none hf]
    refine List.pairwise_append.2 ⟨hl, List.pairwise_singleton _ _, fun e he e' he' => ?_⟩
    rw [List.mem_singleton.1 he', ht e he]
    exact Entries.find?_eq_none_iff.1 hf e he

/-- Whether the keys of each container differ that a value leads to. -/
def Tidy (h : Heap) (v : Value) : Prop := ∀ o, h.Leads v o → h.Apart (h.entries o)

theorem Tidy.part (ho : h.Tidy (some o)) (hx : w ∈ (h.node o).parts) : h.Tidy w :=
  fun p hp => ho p (.part hx hp)

theorem tidy_of_apart (ha : ∀ o < h.size, h.Apart (h.entries o)) : h.Tidy v := by
  intro o _
  by_cases ho : o < h.size
  · exact ha o ho
  · rw [entries_of_size_le (Nat.le_of_not_lt ho)]
    exact .nil

theorem Tidy.apart (ho : h.Tidy (some o)) {c : Container} (hc : h.node o = .container c) :
    h.Apart c.entries :=
  entries_of_node hc ▸ ho o .self

/-- How two objects are equal that are not one. -/
inductive Alike (h : Heap) (o p : ObjId) : Prop
  | leaf {a b : Leaf} : h.node o = .leaf a → h.node p = .leaf b → a.equal b = true → Alike h o p
  | octet {a : BitVec 8} : h.node o = .octet a → h.node p = .octet a → Alike h o p
  | container {c d : Container} : h.node o = .container c → h.node p = .container d →
      c.type = d.type → c.entries.length = d.entries.length →
      (∀ e ∈ c.entries, ∃ x, Entries.find? (h.sameKey none e.1) d.entries = some x ∧
        h.equal none e.2 x = true) → Alike h o p
  | record {fs gs : List Value} : h.node o = .record fs → h.node p = .record gs →
      List.Forall₂ (fun v w => h.equal none v w = true) fs gs → Alike h o p

theorem equal_iff (ho : h.HeightLe n (some o)) :
    h.equal none (some o) (some p) = true ↔ o = p ∨ h.Alike o p := by
  rw [equal_some ho, Bool.or_eq_true, beq_iff_eq]
  refine or_congr_right ?_
  unfold equalObjects
  constructor
  · intro he
    split at he
    · next a b ha hb => exact .leaf ha hb he
    · next a b ha hb => exact .octet ha (beq_iff_eq.1 he ▸ hb)
    · next c d hc hd =>
      rw [Bool.and_eq_true] at he
      obtain ⟨ht, hl, he⟩ := equalContainers_iff.1 he.2
      exact .container hc hd ht hl he
    · next fs gs hf hg =>
      rw [Bool.and_eq_true, beq_iff_eq, List.all_eq_true] at he
      exact .record hf hg (List.forall₂_iff_zip.2 ⟨he.1, fun hm => he.2 _ hm⟩)
    · cases he
  · intro he
    cases he with
    | leaf ha hb he =>
      rw [ha, hb]
      exact he
    | octet ha hb =>
      rw [ha, hb]
      exact beq_self_eq_true _
    | container hc hd ht hl he =>
      rw [hc, hd]
      simpa using equalContainers_iff.2 ⟨ht, hl, he⟩
    | record hf hg he =>
      rw [hf, hg]
      obtain ⟨hl, he⟩ := List.forall₂_iff_zip.1 he
      simp only [Bool.and_eq_true, beq_iff_eq, List.all_eq_true]
      exact ⟨hl, fun e hm => he hm⟩

/-! ## Symmetry and transitivity -/

/-- Whether equality is symmetric and transitive on values up to a height. -/
structure Settled (h : Heap) (n : Nat) : Prop where
  symm : ∀ v w, h.HeightLe n v → h.HeightLe n w → h.Tidy v → h.Tidy w →
    h.equal none v w = true → h.equal none w v = true
  trans : ∀ v w u, h.HeightLe n v → h.HeightLe n w → h.HeightLe n u → h.Tidy v → h.Tidy w →
    h.Tidy u → h.equal none v w = true → h.equal none w u = true → h.equal none v u = true

/-- Two keys that are the same as a third are the same. -/
theorem Settled.sameKey (hs : h.Settled n) (hv : h.HeightLe n v) (hw : h.HeightLe n w)
    (hu : h.HeightLe n u) (tv : h.Tidy v) (tw : h.Tidy w) (tu : h.Tidy u)
    (hvu : h.sameKey none v u = true) (hwu : h.sameKey none w u = true) :
    h.sameKey none v w = true := by
  rw [sameKey_iff] at *
  exact ⟨hs.trans v u w hv hu hw tv tu tw hvu.1 (hs.symm w u hw hu tw tu hwu.1),
    hvu.2.trans hwu.2.symm⟩

/-- Only one of the keys of a container is the same as a given one. -/
theorem Settled.find? (hs : h.Settled n) {c : Container} (ho : h.HeightLe (n + 1) (some o))
    (tv : h.Tidy (some o)) (hc : h.node o = .container c) (hk : h.HeightLe n k) (tk : h.Tidy k)
    {e : Entry} (he : e ∈ c.entries) (hke : h.sameKey none k e.1 = true) :
    Entries.find? (h.sameKey none k) c.entries = some e.2 := by
  refine Entries.find?_of_mem (k := e.1) he hke ?_
  refine (tv.apart hc).imp_of_mem fun {e₁ e₂} h₁ h₂ hne hboth => ?_
  have m₁ := fst_mem_parts hc h₁
  have m₂ := fst_mem_parts hc h₂
  have hsym : ∀ e' ∈ c.entries, h.sameKey none k e'.1 = true → h.sameKey none e'.1 k = true := by
    intro e' he' hk'
    have m' := fst_mem_parts hc he'
    rw [sameKey_iff] at hk' ⊢
    exact ⟨hs.symm _ _ hk (ho.part m') tk (tv.part m') hk'.1, hk'.2.symm⟩
  have := hs.sameKey (ho.part m₂) (ho.part m₁) hk (tv.part m₂) (tv.part m₁) tk
    (hsym e₂ h₂ hboth.2) (hsym e₁ h₁ hboth.1)
  rw [hne] at this
  cases this

/-- An entry of a container that an equal one is compared with has a partner there. -/
theorem Settled.partner (hs : h.Settled n) {c d : Container}
    (hv : h.HeightLe (n + 1) (some o)) (hw : h.HeightLe (n + 1) (some p)) (tv : h.Tidy (some o))
    (tw : h.Tidy (some p)) (hc : h.node o = .container c) (hd : h.node p = .container d)
    (hl : c.entries.length = d.entries.length)
    (he : ∀ e ∈ c.entries, ∃ x, Entries.find? (h.sameKey none e.1) d.entries = some x ∧
      h.equal none e.2 x = true) :
    ∀ e' ∈ d.entries, ∃ e ∈ c.entries,
      h.sameKey none e.1 e'.1 = true ∧ h.equal none e.2 e'.2 = true := by
  refine exists_partner hl.ge (fun e hm => ?_) ?_
  · obtain ⟨x, hx, hex⟩ := he e hm
    obtain ⟨k, hk, hek⟩ := Entries.mem_of_find? hx
    exact ⟨(k, x), hk, hek, hex⟩
  · refine (tv.apart hc).imp_of_mem fun {e₁ e₂} h₁ h₂ hne e' h' hboth => ?_
    have m₁ := fst_mem_parts hc h₁
    have m₂ := fst_mem_parts hc h₂
    have m' := fst_mem_parts hd h'
    have := hs.sameKey (hv.part m₂) (hv.part m₁) (hw.part m') (tv.part m₂) (tv.part m₁)
      (tw.part m') hboth.2.1 hboth.1.1
    rw [hne] at this
    cases this

/-- Objects with parts on which equality is settled are alike both ways round. -/
theorem Settled.alike_symm (hs : h.Settled n) (hv : h.HeightLe (n + 1) (some o))
    (hw : h.HeightLe (n + 1) (some p)) (tv : h.Tidy (some o)) (tw : h.Tidy (some p))
    (he : h.Alike o p) : h.Alike p o := by
  cases he with
  | leaf ha hb he => exact .leaf hb ha (Leaf.equal_symm he)
  | octet ha hb => exact .octet hb ha
  | @container c d hc hd ht hl he =>
    refine .container hd hc ht.symm hl.symm fun e' hm' => ?_
    obtain ⟨e, hm, hk, hx⟩ := hs.partner hv hw tv tw hc hd hl he e' hm'
    have m₁ := fst_mem_parts hc hm
    have m₁' := snd_mem_parts hc hm
    have m₂ := fst_mem_parts hd hm'
    have m₂' := snd_mem_parts hd hm'
    have hk' : h.sameKey none e'.1 e.1 = true := by
      rw [sameKey_iff] at hk ⊢
      exact ⟨hs.symm _ _ (hv.part m₁) (hw.part m₂) (tv.part m₁) (tw.part m₂) hk.1, hk.2.symm⟩
    exact ⟨e.2, hs.find? hv tv hc (hw.part m₂) (tw.part m₂) hm hk',
      hs.symm _ _ (hv.part m₁') (hw.part m₂') (tv.part m₁') (tw.part m₂') hx⟩
  | @record fs gs hf hg he =>
    refine .record hg hf (List.Forall₂.flip ?_)
    have hfs : ∀ x ∈ fs, x ∈ (h.node o).parts := by simp [hf, Node.parts]
    have hgs : ∀ x ∈ gs, x ∈ (h.node p).parts := by simp [hg, Node.parts]
    obtain ⟨hl, hz⟩ := List.forall₂_iff_zip.1 he
    refine List.forall₂_iff_zip.2 ⟨hl, fun {x y} hm => ?_⟩
    have hx := hfs x (List.of_mem_zip hm).1
    have hy := hgs y (List.of_mem_zip hm).2
    exact hs.symm x y (hv.part hx) (hw.part hy) (tv.part hx) (tw.part hy) (hz hm)

theorem Settled.symm_succ (hs : h.Settled n) (hv : h.HeightLe (n + 1) v)
    (hw : h.HeightLe (n + 1) w) (tv : h.Tidy v) (tw : h.Tidy w) (he : h.equal none v w = true) :
    h.equal none w v = true := by
  cases v with
  | none => exact equal_none_right.2 (equal_none_left.1 he)
  | some o =>
    cases w with
    | none => cases equal_none_right.1 he
    | some p =>
      rcases (equal_iff hv).1 he with rfl | he
      · exact he
      · exact (equal_iff hw).2 (Or.inr (hs.alike_symm hv hw tv tw he))

/-- What an entry finds in a third container it finds by way of the second. -/
theorem Settled.find?_trans (hs : h.Settled n) {c d f : Container}
    (hv : h.HeightLe (n + 1) (some o)) (hw : h.HeightLe (n + 1) (some p))
    (hu : h.HeightLe (n + 1) (some q)) (tv : h.Tidy (some o)) (tw : h.Tidy (some p))
    (tu : h.Tidy (some q)) (hc : h.node o = .container c) (hd : h.node p = .container d)
    (hf : h.node q = .container f) {e : Entry} (hm : e ∈ c.entries)
    (he : ∃ x, Entries.find? (h.sameKey none e.1) d.entries = some x ∧ h.equal none e.2 x = true)
    (he' : ∀ e' ∈ d.entries, ∃ x, Entries.find? (h.sameKey none e'.1) f.entries = some x ∧
      h.equal none e'.2 x = true) :
    ∃ x, Entries.find? (h.sameKey none e.1) f.entries = some x ∧ h.equal none e.2 x = true := by
  obtain ⟨x, hx, hex⟩ := he
  obtain ⟨k, hk, hek⟩ := Entries.mem_of_find? hx
  obtain ⟨y, hy, hxy⟩ := he' (k, x) hk
  obtain ⟨l, hl, hkl⟩ := Entries.mem_of_find? hy
  have m₁ := fst_mem_parts hc hm
  have m₁' := snd_mem_parts hc hm
  have m₂ := fst_mem_parts hd hk
  have m₂' := snd_mem_parts hd hk
  have m₃ := fst_mem_parts hf hl
  have m₃' := snd_mem_parts hf hl
  have hel : h.sameKey none e.1 l = true := by
    rw [sameKey_iff] at hek hkl ⊢
    exact ⟨hs.trans _ _ _ (hv.part m₁) (hw.part m₂) (hu.part m₃) (tv.part m₁) (tw.part m₂)
      (tu.part m₃) hek.1 hkl.1, hek.2.trans hkl.2⟩
  exact ⟨y, hs.find? hu tu hf (hv.part m₁) (tv.part m₁) hl hel,
    hs.trans _ _ _ (hv.part m₁') (hw.part m₂') (hu.part m₃') (tv.part m₁') (tw.part m₂')
      (tu.part m₃') hex hxy⟩

/-- Objects with parts on which equality is settled are alike by way of a third. -/
theorem Settled.alike_trans (hs : h.Settled n) (hv : h.HeightLe (n + 1) (some o))
    (hw : h.HeightLe (n + 1) (some p)) (hu : h.HeightLe (n + 1) (some q)) (tv : h.Tidy (some o))
    (tw : h.Tidy (some p)) (tu : h.Tidy (some q)) (hop : h.Alike o p) (hpq : h.Alike p q) :
    h.Alike o q := by
  cases hop with
  | @leaf a b ha hb he =>
    cases hpq with
    | leaf hb' hc he' =>
      rw [hb] at hb'
      cases hb'
      exact .leaf ha hc (Leaf.equal_trans he he')
    | octet hb' | container hb' | record hb' => cases hb.symm.trans hb'
  | octet ha hb =>
    cases hpq with
    | octet hb' hc =>
      rw [hb] at hb'
      cases hb'
      exact .octet ha hc
    | leaf hb' | container hb' | record hb' => cases hb.symm.trans hb'
  | @container c d hc hd ht hl he =>
    cases hpq with
    | container hd' hf ht' hl' he' =>
      rw [hd] at hd'
      cases hd'
      exact .container hc hf (ht.trans ht') (hl.trans hl') fun e hm =>
        hs.find?_trans hv hw hu tv tw tu hc hd hf hm (he e hm) he'
    | leaf hb' | octet hb' | record hb' => cases hd.symm.trans hb'
  | @record fs gs hf hg he =>
    cases hpq with
    | @record gs' ks hg' hk he' =>
      rw [hg] at hg'
      cases hg'
      refine .record hf hk ?_
      obtain ⟨hl, hz⟩ := List.forall₂_iff_get.1 he
      obtain ⟨hl', hz'⟩ := List.forall₂_iff_get.1 he'
      refine List.forall₂_iff_get.2 ⟨hl.trans hl', fun i h₁ h₃ => ?_⟩
      have h₂ : i < gs.length := hl ▸ h₁
      have m₁ : fs.get ⟨i, h₁⟩ ∈ (h.node o).parts := by simp [hf, Node.parts]
      have m₂ : gs.get ⟨i, h₂⟩ ∈ (h.node p).parts := by simp [hg, Node.parts]
      have m₃ : ks.get ⟨i, h₃⟩ ∈ (h.node q).parts := by simp [hk, Node.parts]
      exact hs.trans _ _ _ (hv.part m₁) (hw.part m₂) (hu.part m₃) (tv.part m₁) (tw.part m₂)
        (tu.part m₃) (hz i h₁ h₂) (hz' i h₂ h₃)
    | leaf hb' | octet hb' | container hb' => cases hg.symm.trans hb'

theorem Settled.trans_succ (hs : h.Settled n) (hv : h.HeightLe (n + 1) v)
    (hw : h.HeightLe (n + 1) w) (hu : h.HeightLe (n + 1) u) (tv : h.Tidy v) (tw : h.Tidy w)
    (tu : h.Tidy u) (hvw : h.equal none v w = true) (hwu : h.equal none w u = true) :
    h.equal none v u = true := by
  cases v with
  | none =>
    rw [equal_none_left.1 hvw] at hwu
    exact hwu
  | some o =>
    cases w with
    | none => cases equal_none_right.1 hvw
    | some p =>
      cases u with
      | none => cases equal_none_right.1 hwu
      | some q =>
        rcases (equal_iff hv).1 hvw with rfl | hop
        · exact hwu
        rcases (equal_iff hw).1 hwu with rfl | hpq
        · exact hvw
        · exact (equal_iff hv).2 (Or.inr (hs.alike_trans hv hw hu tv tw tu hop hpq))

theorem settled (h : Heap) (n : Nat) : h.Settled n := by
  induction n with
  | zero =>
    constructor
    · intro v w hv _ _ _ he
      cases v with
      | none => exact equal_none_right.2 (equal_none_left.1 he)
      | some o => exact hv.elim
    · intro v w u hv _ _ _ _ _ hvw hwu
      cases v with
      | none => rwa [equal_none_left.1 hvw] at hwu
      | some o => exact hv.elim
  | succ n ih =>
    exact ⟨fun _ _ hv hw tv tw he => ih.symm_succ hv hw tv tw he,
      fun _ _ _ hv hw hu tv tw tu hvw hwu => ih.trans_succ hv hw hu tv tw tu hvw hwu⟩

/-- **Equality is symmetric** on tidy values of some height. -/
theorem HeightLe.equal_symm (hv : h.HeightLe n v) (hw : h.HeightLe n w) (tv : h.Tidy v)
    (tw : h.Tidy w) (he : h.equal none v w = true) : h.equal none w v = true :=
  (h.settled n).symm v w hv hw tv tw he

/-- **Equality is transitive** on tidy values of some height. -/
theorem HeightLe.equal_trans (hv : h.HeightLe n v) (hw : h.HeightLe n w) (hu : h.HeightLe n u)
    (tv : h.Tidy v) (tw : h.Tidy w) (tu : h.Tidy u) (hvw : h.equal none v w = true)
    (hwu : h.equal none w u = true) : h.equal none v u = true :=
  (h.settled n).trans v w u hv hw hu tv tw tu hvw hwu

end Heap

end GraphWire

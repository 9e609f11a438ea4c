/-
  Numbers count first occurrences.

  A writer looks objects up by what they are and numbers those that are new; a reader numbers
  objects as they come.  Neither sees the other's table, and yet a number is the same object
  to both: it is how many other objects occurred before that one first did.

  * `rank` is that count, and `recurrences` what it makes of a row of objects;
    `idxOf_eraseDups`: it is the place in the order of first occurrence;
  * `Writing.announce_mapM`: the calls of a writer for a row, whatever recurs in it;
  * `Reading.retell_mapM`: a reader that goes by what they have written;
  * `Writing.retold_of_announced`: the objects of the reader recur as those of the writer.
-/
import GraphWire.Proofs.Mirroring
import Mathlib.Data.Finset.Card
import Mathlib.Data.List.GetD
import Mathlib.Data.List.Induction

namespace GraphWire

variable {os news roll : List ObjId} {o : ObjId} {native : Bool}

/-! ## First occurrences -/

/-- How many objects occur in a row before an object first does. -/
def rank (os : List ObjId) (o : ObjId) : Nat := (os.take (os.idxOf o)).toFinset.card

/-- The rank of an object if it occurs in a row. -/
def rank? (os : List ObjId) (o : ObjId) : Option Nat := if o ∈ os then some (rank os o) else none

/-- For each object of a row its rank if it occurred before. -/
def recurrences (os : List ObjId) : List (Option Nat) := os.mapIdx fun k o => rank? (os.take k) o

/-- Those that have one are those that occurred before. -/
theorem isSome_recurrences (os : List ObjId) :
    (recurrences os).map Option.isSome = os.mapIdx fun k o => decide (o ∈ os.take k) := by
  have hsome : ∀ ps o, (rank? ps o).isSome = decide (o ∈ ps) := by
    intro ps o
    unfold rank?
    split <;> simp [*]
  unfold recurrences
  refine List.ext_getElem (by simp) fun k _ _ => ?_
  rw [List.getElem_map, List.getElem_mapIdx, List.getElem_mapIdx, hsome]

/-- What comes later does not change the rank of an object. -/
theorem rank_append (ho : o ∈ os) (ps : List ObjId) : rank (os ++ ps) o = rank os o := by
  unfold rank
  rw [List.idxOf_append_of_mem ho, List.take_append_of_le_length List.idxOf_le_length]

/-- A new object is behind all others. -/
theorem rank_concat_self (ho : o ∉ os) : rank (os ++ [o]) o = os.toFinset.card := by
  unfold rank
  rw [List.idxOf_append_of_notMem ho, List.idxOf_cons_self, Nat.add_zero, List.take_left]

theorem recurrences_concat (os : List ObjId) (o : ObjId) :
    recurrences (os ++ [o]) = recurrences os ++ [rank? os o] := by
  unfold recurrences
  rw [List.mapIdx_concat, List.take_left]
  congr 1
  refine List.ext_getElem (by simp) fun k hk _ => ?_
  rw [List.length_mapIdx] at hk
  rw [List.getElem_mapIdx, List.getElem_mapIdx, List.take_append_of_le_length hk.le]

/-! ## The objects in the order of first occurrence -/

theorem eraseDups_concat (os : List ObjId) (o : ObjId) :
    (os ++ [o]).eraseDups = if o ∈ os then os.eraseDups else os.eraseDups ++ [o] := by
  have hself : [o].eraseDups = [o] := rfl
  rw [List.eraseDups_append]
  split <;> simp [List.removeAll, *]

theorem nodup_eraseDups (os : List ObjId) : os.eraseDups.Nodup := by
  induction os using List.reverseRecOn with
  | nil => exact List.nodup_nil
  | append_singleton os o ih =>
    rw [eraseDups_concat]
    split
    · exact ih
    · next ho => simpa [List.nodup_append, ih] using fun p hp (h : p = o) => ho (h ▸ hp)

theorem length_eraseDups (os : List ObjId) : os.eraseDups.length = os.toFinset.card := by
  rw [← List.toFinset_card_of_nodup (nodup_eraseDups os)]
  congr 1
  ext o
  simp

/-- The rank of an object is its place among them. -/
theorem idxOf_eraseDups (ho : o ∈ os) : os.eraseDups.idxOf o = rank os o := by
  induction os using List.reverseRecOn with
  | nil => cases ho
  | append_singleton os p ih =>
    rw [eraseDups_concat]
    by_cases hos : o ∈ os
    · rw [rank_append hos, ← ih hos]
      split
      · rfl
      · exact List.idxOf_append_of_mem (List.mem_eraseDups.2 hos)
    · obtain rfl : o = p := by simpa [hos] using ho
      rw [if_neg hos, List.idxOf_append_of_notMem (mt List.mem_eraseDups.1 hos),
        List.idxOf_cons_self, length_eraseDups, rank_concat_self hos, Nat.add_zero]

theorem getElem?_rank (ho : o ∈ os) : os.eraseDups[rank os o]? = some o := by
  rw [← idxOf_eraseDups ho]
  exact List.getElem?_idxOf (List.mem_eraseDups.2 ho)

theorem rank_lt (ho : o ∈ os) : rank os o < os.toFinset.card := by
  rw [← idxOf_eraseDups ho, ← length_eraseDups]
  exact List.idxOf_lt_length_iff.2 (List.mem_eraseDups.2 ho)

/-! ## Writers -/

theorem Written.number?_eraseDups (os : List ObjId) (o : ObjId) :
    Written.number? ⟨os.eraseDups⟩ o = rank? os o := by
  unfold Written.number? rank?
  split
  · next ho =>
    have hmem := List.mem_eraseDups.2 ho
    have hidx := List.idxOf_eq_getD_idxOf? o os.eraseDups
    cases h : os.eraseDups.idxOf? o with
    | none => exact absurd hmem (List.idxOf?_eq_none_iff.1 h)
    | some i => rw [← idxOf_eraseDups ho, hidx, h, Option.getD_some]
  · next ho => exact List.idxOf?_eq_none_iff.2 (mt List.mem_eraseDups.1 ho)

/-- What stands before an object: its number behind a marker, or a marker only. -/
def numberBytes (native : Bool) : Option Nat → Bytes
  | some i => Marker.back.byte :: countBytes native i
  | none => [Marker.fresh.byte]

namespace Writing

variable {s : WriteState}

/-- **One more call** after those for a row. -/
theorem announce_next (hs : s.written = ⟨os.eraseDups⟩) (o : ObjId) :
    announce o s = .ok (rank? os o).isSome
      { s with
        out := s.out.append (numberBytes s.out.native (rank? os o))
        written := ⟨(os ++ [o]).eraseDups⟩ } := by
  have hnumber := Written.number?_eraseDups os o
  rw [← hs] at hnumber
  rw [eraseDups_concat]
  by_cases ho : o ∈ os
  · have hrank : rank? os o = some (rank os o) := if_pos ho
    rw [announce_of_some (hnumber.trans hrank), if_pos ho, hrank, ← hs]
    rfl
  · have hrank : rank? os o = none := if_neg ho
    rw [announce_of_none (hnumber.trans hrank), if_neg ho, hrank, hs]
    rfl

/-- **The calls for a row** say what recurs, and write the ranks of what does. -/
theorem announce_mapM (hs : s.written = .empty) (os : List ObjId) :
    os.mapM announce s = .ok ((recurrences os).map Option.isSome)
      { s with
        out := s.out.append ((recurrences os).flatMap (numberBytes s.out.native))
        written := ⟨os.eraseDups⟩ } := by
  -- from the end of the row: what a call writes depends on what came before it
  induction os using List.reverseRecOn with
  | nil =>
    rw [show recurrences [] = [] from rfl, List.flatMap_nil, Output.append_nil]
    show EStateM.Result.ok [] s = .ok [] { s with written := .empty }
    rw [← hs]
  | append_singleton os o ih =>
    rw [mapM_concat_of_ok ih (announce_next rfl o), recurrences_concat, List.map_append,
      List.flatMap_append, ← Output.append_append, List.flatMap_singleton]
    rfl

end Writing

/-! ## Readers -/

/-- The bindings of a reader to which nothing is left to bind. -/
def Bindings.ofRoll (roll : List ObjId) : Bindings := ⟨(roll.map some).toArray, []⟩

theorem Bindings.get_ofRoll {i : Nat} (h : roll[i]? = some o) : (ofRoll roll).get i = .ok o := by
  unfold get ofRoll
  simp [h]

/-- A number that is reserved, waits and is bound is the next place on the roll. -/
theorem Bindings.bind_ofRoll (hlt : roll.length < 2 ^ 32) (o : ObjId) :
    ((ofRoll roll).reserve.2.expect (some (ofRoll roll).reserve.1)).bind o =
      ofRoll (roll ++ [o]) := by
  have hid : (ofRoll roll).reserve.1 = roll.length := by
    show (BitVec.ofNat 32 (roll.map some).toArray.size).toNat = _
    rw [List.size_toArray, List.length_map, BitVec.toNat_ofNat, Nat.mod_eq_of_lt hlt]
  rw [hid]
  simp [ofRoll, reserve, expect, bind, Array.setIfInBounds_def]

/-- The object that a reader has for another: what it was given where that first occurred. -/
def imageIn (os news : List ObjId) (o : ObjId) : ObjId := news.getD (os.idxOf o) o

theorem imageIn_append (hlen : news.length = os.length) (ho : o ∈ os) (ps more : List ObjId) :
    imageIn (os ++ ps) (news ++ more) o = imageIn os news o := by
  unfold imageIn
  rw [List.idxOf_append_of_mem ho, List.getD_append]
  rw [hlen]
  exact List.idxOf_lt_length_iff.2 ho

theorem imageIn_concat_self (hlen : news.length = os.length) (ho : o ∉ os) (new : ObjId) :
    imageIn (os ++ [o]) (news ++ [new]) o = new := by
  unfold imageIn
  rw [List.idxOf_append_of_notMem ho, List.idxOf_cons_self, Nat.add_zero, ← hlen,
    List.getD_append_right _ _ _ _ le_rfl, Nat.sub_self]
  rfl

/-- New objects that are different stand for different objects. -/
theorem imageIn_inj {p : ObjId} (hlen : news.length = os.length) (hnew : news.Nodup) (ho : o ∈ os)
    (hp : p ∈ os) : imageIn os news o = imageIn os news p ↔ o = p := by
  have hlt : ∀ {q}, q ∈ os → os.idxOf q < news.length := fun hq =>
    hlen ▸ List.idxOf_lt_length_iff.2 hq
  unfold imageIn
  rw [List.getD_eq_getElem _ _ (hlt ho), List.getD_eq_getElem _ _ (hlt hp), hnew.getElem_inj_iff,
    List.idxOf_inj ho]

/-- Whether objects are the same at two places of a row just where they are in another. -/
structure SamePattern (ps os : List ObjId) : Prop where
  length_eq : ps.length = os.length
  same_iff : ∀ j k : Nat, ps[j]? = ps[k]? ↔ os[j]? = os[k]?

theorem samePattern_images (hlen : news.length = os.length) (hnew : news.Nodup) :
    SamePattern (os.map (imageIn os news)) os where
  length_eq := List.length_map _
  same_iff j k := by
    rw [List.getElem?_map, List.getElem?_map]
    cases hj : os[j]? with
    | none => cases os[k]? <;> simp
    | some o =>
      cases hk : os[k]? with
      | none => simp
      | some p =>
        simpa using imageIn_inj hlen hnew (List.mem_of_getElem? hj) (List.mem_of_getElem? hk)

/-- The objects that a reader has bound when it has gone by a row. -/
def imagesIn (os news : List ObjId) : List ObjId := os.eraseDups.map (imageIn os news)

theorem imagesIn_concat (hlen : news.length = os.length) (o new : ObjId) :
    imagesIn (os ++ [o]) (news ++ [new]) =
      if o ∈ os then imagesIn os news else imagesIn os news ++ [new] := by
  have hsame : os.eraseDups.map (imageIn (os ++ [o]) (news ++ [new])) = imagesIn os news :=
    List.map_congr_left fun p hp => imageIn_append hlen (List.mem_eraseDups.1 hp) _ _
  unfold imagesIn at *
  rw [eraseDups_concat]
  split
  · exact hsame
  · next ho => rw [List.map_append, hsame, List.map_singleton, imageIn_concat_self hlen ho]

theorem length_imagesIn : (imagesIn os news).length = os.toFinset.card := by
  rw [imagesIn, List.length_map, length_eraseDups]

theorem getElem?_imagesIn (ho : o ∈ os) :
    (imagesIn os news)[rank os o]? = some (imageIn os news o) := by
  rw [imagesIn, List.getElem?_map, getElem?_rank ho, Option.map_some]

namespace Reading

variable {r : ReadState}

/-- Goes by what stands before an object: one that is new is the given one, which is bound at
    once, and any other is looked up. -/
def retell (new : ObjId) : Reading ObjId := do
  match ← marker with
  | .fresh => do
    let id ← reserve
    expect (some id)
    bindObject new
    return new
  | .back => earlier
  | m => throw (.unknownMarker m.code)

theorem retell_fresh (hb : r.bindings = .ofRoll roll) (hlt : roll.length < 2 ^ 32)
    (hs : r.input.source = none) (hn : r.input.native = native)
    (hp : numberBytes native none <+: r.input.unread) (new : ObjId) : retell new r = .ok new
      { r with
        input := r.input.advance (numberBytes native none).length
        bindings := .ofRoll (roll ++ [new]) } := by
  unfold retell
  rw [bind_of_ok (takes_marker .fresh r hs hn hp), ← Bindings.bind_ofRoll hlt, ← hb]
  rfl

theorem retell_back {i : Nat} (hb : r.bindings = .ofRoll roll) (hi : roll[i]? = some o)
    (hlt : i < 2 ^ 32) (hs : r.input.source = none) (hn : r.input.native = native)
    (hp : numberBytes native (some i) <+: r.input.unread) (new : ObjId) :
    retell new r = .ok o
      { r with input := r.input.advance (numberBytes native (some i)).length } := by
  have hp' : [Marker.back.byte] ++ countBytes native i <+: r.input.unread := hp
  unfold retell
  rw [bind_of_ok (takes_marker .back r hs hn ((List.prefix_append _ _).trans hp'))]
  have hcount := takes_count hlt { r with input := r.input.advance [Marker.back.byte].length } hs hn
    (Input.prefix_advance hp')
  refine (bind_of_ok hcount).trans ?_
  show attempt (r.bindings.get i) _ = _
  rw [hb, Bindings.get_ofRoll hi, attempt_ok, Input.advance_advance, ← List.length_append]
  rfl

/-- **One more marker** after those of a row. -/
theorem retell_next (hlen : news.length = os.length)
    (hb : r.bindings = .ofRoll (imagesIn os news)) (hfew : (os ++ [o]).toFinset.card ≤ 2 ^ 32)
    (hs : r.input.source = none) (hn : r.input.native = native)
    (hp : numberBytes native (rank? os o) <+: r.input.unread) (new : ObjId) :
    retell new r = .ok (imageIn (os ++ [o]) (news ++ [new]) o)
      { r with
        input := r.input.advance (numberBytes native (rank? os o)).length
        bindings := .ofRoll (imagesIn (os ++ [o]) (news ++ [new])) } := by
  have hlt : rank (os ++ [o]) o < 2 ^ 32 := (rank_lt (by simp)).trans_le hfew
  rw [imagesIn_concat hlen]
  by_cases ho : o ∈ os
  · have hrank : rank? os o = some (rank os o) := if_pos ho
    rw [hrank] at hp ⊢
    rw [rank_append ho] at hlt
    rw [retell_back hb (getElem?_imagesIn ho) hlt hs hn hp, if_pos ho, imageIn_append hlen ho, ← hb]
  · have hrank : rank? os o = none := if_neg ho
    rw [hrank] at hp ⊢
    rw [rank_concat_self ho, ← length_imagesIn] at hlt
    rw [retell_fresh hb hlt hs hn hp, if_neg ho, imageIn_concat_self hlen ho]

/-- **A reader that goes by what was written** for a row has for each object the image of it,
    and all images bound. -/
theorem retell_mapM (hlen : news.length = os.length) (hb : r.bindings = .empty)
    (hfew : os.toFinset.card ≤ 2 ^ 32) (hs : r.input.source = none)
    (hn : r.input.native = native)
    (hp : (recurrences os).flatMap (numberBytes native) <+: r.input.unread) :
    news.mapM retell r = .ok (os.map (imageIn os news))
      { r with
        input := r.input.advance ((recurrences os).flatMap (numberBytes native)).length
        bindings := .ofRoll (imagesIn os news) } := by
  induction os using List.reverseRecOn generalizing news with
  | nil =>
    obtain rfl := List.length_eq_zero_iff.1 hlen
    show EStateM.Result.ok [] r = .ok [] { r with bindings := .empty }
    rw [← hb]
  | append_singleton os o ih =>
    obtain ⟨news, new, rfl⟩ : ∃ ns n, news = ns ++ [n] := by
      rcases List.eq_nil_or_concat news with rfl | ⟨ns, n, rfl⟩
      · simp at hlen
      · exact ⟨ns, n, List.concat_eq_append⟩
    have hlen : news.length = os.length := by simpa using hlen
    have hfew' : os.toFinset.card ≤ 2 ^ 32 := by
      refine (Finset.card_le_card ?_).trans hfew
      simp
    rw [recurrences_concat, List.flatMap_append, List.flatMap_singleton] at hp ⊢
    let r₁ : ReadState :=
      { r with
        input := r.input.advance ((recurrences os).flatMap (numberBytes native)).length
        bindings := .ofRoll (imagesIn os news) }
    have hread : news.mapM retell r = .ok (os.map (imageIn os news)) r₁ :=
      ih hlen hfew' ((List.prefix_append _ _).trans hp)
    have hnext := retell_next (r := r₁) (o := o) hlen rfl hfew hs hn (Input.prefix_advance hp) new
    -- the objects that were retold before do not change
    have hsame : (os ++ [o]).map (imageIn (os ++ [o]) (news ++ [new])) =
        os.map (imageIn os news) ++ [imageIn (os ++ [o]) (news ++ [new]) o] := by
      rw [List.map_append, List.map_singleton]
      exact congrArg (· ++ _) (List.map_congr_left fun p hp => imageIn_append hlen hp _ _)
    rw [mapM_concat_of_ok hread hnext, hsame, Input.advance_advance, List.length_append]

end Reading

namespace Writing

/-- **What was announced is retold.**  A writer that has not numbered anything, or not any more,
    is called for a row of objects: it says of each whether it occurred before, and if so
    writes its rank; in the end it has numbered as many as there are different ones.  In
    either layout, a reader that goes by what was written, and is given a new object for each
    call, ends with objects that are the same just where those of the row are, and has what
    stands for an object under its rank.  Numbers have 32 bits, so there may not be more
    objects to tell apart than that. -/
theorem retold_of_announced (s : WriteState) (os : List ObjId) :
    ∃ bs s', os.mapM announce { s with written := s.written.clear } =
        .ok (os.mapIdx fun k o => decide (o ∈ os.take k)) s' ∧
      bs = (recurrences os).flatMap (numberBytes s.out.native) ∧ s'.out = s.out.append bs ∧
      s'.written.length = os.toFinset.card ∧
      (os.toFinset.card ≤ 2 ^ 32 → ∀ news : List ObjId, news.length = os.length → news.Nodup →
        ∀ (h : Heap) (rest : Bytes), ∃ ps r',
          news.mapM Reading.retell
              (.start ((Input.ofBytes (bs ++ rest)).withLayout s.out.native) h) = .ok ps r' ∧
            r'.input.unread = rest ∧ SamePattern ps os ∧
            r'.bindings.bound.size = s'.written.length ∧
            ∀ (k : Nat) (o : ObjId), os[k]? = some o →
              ∃ p, ps[k]? = some p ∧ r'.bindings.get (rank os o) = .ok p) := by
  let bs := (recurrences os).flatMap (numberBytes s.out.native)
  have hcalls := announce_mapM (s := { s with written := s.written.clear }) rfl os
  rw [isSome_recurrences] at hcalls
  refine ⟨bs, _, hcalls, rfl, rfl, length_eraseDups os, fun hfew news hlen hnew h rest => ?_⟩
  let i : Input := (Input.ofBytes (bs ++ rest)).withLayout s.out.native
  have hread := Reading.retell_mapM (r := .start i h) hlen rfl hfew rfl rfl (List.prefix_append _ _)
  refine ⟨_, _, hread, List.drop_left, samePattern_images hlen hnew, ?_, fun k o ho => ?_⟩
  · simp [Bindings.ofRoll, imagesIn, Written.length]
  · have hmem := List.mem_of_getElem? ho
    exact ⟨imageIn os news o, by rw [List.getElem?_map, ho, Option.map_some],
      Bindings.get_ofRoll (getElem?_imagesIn hmem)⟩

/-- A writer that holds a byte and has numbered an object. -/
def used : WriteState := ⟨⟨#[7], true⟩, ⟨[9]⟩, .start⟩

/-- Two objects that recur crosswise, and the one that was numbered before, which is new again. -/
theorem retold_of_announced_crosswise :
    ([4, 5, 4, 9, 5] : List ObjId).toFinset.card ≤ 2 ^ 32 ∧
      [20, 21, 22, 23, 24].length = [4, 5, 4, 9, 5].length ∧
      ([20, 21, 22, 23, 24] : List ObjId).Nodup ∧
      ∃ s', [4, 5, 4, 9, 5].mapM announce { used with written := used.written.clear } =
          .ok [false, false, true, false, true] s' ∧ s'.written.length = 3 ∧
        s'.out.bytes = [7, 0, 0, 254, 0, 0, 0, 0, 0, 254, 1, 0, 0, 0] ∧
        ∃ ps r', [20, 21, 22, 23, 24].mapM Reading.retell
            (.start ((Input.ofBytes [0, 0, 254, 0, 0, 0, 0, 0, 254, 1, 0, 0, 0]).withLayout true)
              .empty) = .ok ps r' ∧ SamePattern ps [4, 5, 4, 9, 5] := by
  have hfew : ([4, 5, 4, 9, 5] : List ObjId).toFinset.card ≤ 2 ^ 32 := by decide
  have hlen : [20, 21, 22, 23, 24].length = [4, 5, 4, 9, 5].length := rfl
  have hnew : ([20, 21, 22, 23, 24] : List ObjId).Nodup := by decide
  obtain ⟨bs, s', hcalls, hbs, hout, hcount, hretold⟩ := retold_of_announced used [4, 5, 4, 9, 5]
  have hbytes : bs = [0, 0, 254, 0, 0, 0, 0, 0, 254, 1, 0, 0, 0] := hbs.trans (by decide)
  obtain ⟨ps, r', hread, -, hsame, -⟩ := hretold hfew _ hlen hnew .empty []
  rw [hbytes] at hread hout
  exact ⟨hfew, hlen, hnew, s', hcalls, hcount, by rw [hout]; rfl, ps, r', hread, hsame⟩

end Writing

end GraphWire

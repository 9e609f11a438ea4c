/-
  Entries that are lost.

  A key that leads back to a container that is being filled is compared as far as
  it is rebuilt.  It may be taken for another key then, and its entry is lost.

  * `Rebuilds.unique`: what is rebuilt depends on the graph only, and so does
    whether something is lost (`Heap.Lossless`);
  * `Rebuilds.represents`: the containers of what is rebuilt stand for those of the
    graph, whatever is lost;
  * `Engine.entries_kept_iff`: reading and copying keep the number of entries of
    all containers iff nothing is lost.
-/
import GraphWire.Proofs.Copying
import GraphWire.Proofs.Likeness
import GraphWire.Proofs.RoundTrip

namespace GraphWire

/-! ## One result -/

/-- **A task has one result.** -/
theorem Rebuilds.unique {m : Manner} {h : Heap} {t : Task} {d d₁ d₂ : Draft} {w₁ w₂ : Value}
    (h₁ : Rebuilds m h t d w₁ d₁) (h₂ : Rebuilds m h t d w₂ d₂) : w₁ = w₂ ∧ d₁ = d₂ := by
  induction h₁ generalizing w₂ d₂ with
  | null =>
    cases h₂
    exact ⟨rfl, rfl⟩
  | met hm =>
    cases h₂ with
    | met hm' => exact ⟨hm.symm.trans hm', rfl⟩
    | unmet hm' => simp [hm] at hm'
  | unmet hm _ ih =>
    cases h₂ with
    | met hm' => simp [hm] at hm'
    | unmet _ hr => exact ih hr
  | leaf hm ha =>
    cases h₂ with
    | leaf _ ha' =>
      cases ha.symm.trans ha'
      exact ⟨rfl, rfl⟩
    | sameLeaf hm' => simp [hm] at hm'
    | container hc => cases ha.symm.trans hc
  | sameLeaf hm ha =>
    cases h₂ with
    | leaf hm' => simp [hm] at hm'
    | sameLeaf => exact ⟨rfl, rfl⟩
    | container hc => cases ha.symm.trans hc
  | container hc _ ih =>
    cases h₂ with
    | leaf _ ha => cases hc.symm.trans ha
    | sameLeaf _ ha => cases hc.symm.trans ha
    | container hc' hr =>
      cases hc.symm.trans hc'
      exact ⟨rfl, (ih hr).2⟩
  | nil =>
    cases h₂
    exact ⟨rfl, rfl⟩
  | cons _ _ _ ihk ihv ihl =>
    cases h₂ with
    | cons hk hv hl =>
      obtain ⟨rfl, rfl⟩ := ihk hk
      obtain ⟨rfl, rfl⟩ := ihv hv
      exact ihl hl

/-- Whether no key is taken for another when a value is rebuilt in a heap. -/
def Heap.Lossless (m : Manner) (h h₀ : Heap) (v : Value) : Prop :=
  ∀ w d, Rebuilds m h (.value v) (.start h₀) w d → d.lost = []

/-- Nothing is lost where keys lead into no cycle. -/
theorem Heap.WellKeyed.lossless {m : Manner} {h : Heap} {v : Value} (hv : h.WellKeyed v)
    (h₀ : Heap) : h.Lossless m h₀ v :=
  fun _ _ hr => hr.lost_eq_nil hv

/-! ## What stands for what -/

namespace Draft

variable {m : Manner} {h : Heap} {d d' : Draft} {but : Option ObjId} {busy : List ObjId}
  {o p : ObjId} {v w : Value}

/-- Whether images hold what stands for parts of their containers and, but for
    some, whether all of these have something that stands for them. -/
structure Spans (h : Heap) (busy : List ObjId) (d : Draft) : Prop where
  back : ∀ o p, (o, p) ∈ d.images → ∀ x' ∈ (d.heap.node p).parts,
    ∃ x ∈ (h.node o).parts, d.Stands x x'
  forth : ∀ o p, (o, p) ∈ d.images → p ∉ busy → ∀ x ∈ (h.node o).parts, ∃ x', d.Stands x x'

theorem spans_start (h₀ : Heap) : (start h₀).Spans h [] where
  back o p hm := by cases hm
  forth o p hm := by cases hm

/-- What was there before stays in its place. -/
theorem Spans.of_node (hs : d.Spans h busy) (hg : d.Grown but d')
    (hi : ∀ o p, (o, p) ∈ d'.images → (o, p) ∈ d.images ∧ d'.heap.node p = d.heap.node p) :
    d'.Spans h busy where
  back o p hm x' hx' := by
    obtain ⟨hm', hn⟩ := hi o p hm
    obtain ⟨x, hx, hst⟩ := hs.back o p hm' x' (hn ▸ hx')
    exact ⟨x, hx, hst.grown hg⟩
  forth o p hm hp x hx := by
    obtain ⟨x', hst⟩ := hs.forth o p (hi o p hm).1 hp x hx
    exact ⟨x', hst.grown hg⟩

/-- A new image holds nothing yet. -/
theorem Spans.begin (hs : d.Spans h busy) (hd : d.Valid m h) (type : ContainerType) :
    (d.begin o type).Spans h (d.heap.size :: busy) := by
  have hg : d.Grown none (d.begin o type) := grown_begin type
  constructor
  · intro o' p hm x' hx'
    rcases List.mem_append.1 hm with hm | hm
    · rw [node_begin type (hd.images_lt o' p hm)] at hx'
      obtain ⟨x, hx, hst⟩ := hs.back o' p hm x' hx'
      exact ⟨x, hx, hst.grown hg⟩
    · cases List.mem_singleton.1 hm
      simp [node_begin_new, Node.parts] at hx'
  · intro o' p hm hp x hx
    rcases List.mem_append.1 hm with hm | hm
    · obtain ⟨x', hst⟩ := hs.forth o' p hm (fun h' => hp (List.mem_cons_of_mem _ h')) x hx
      exact ⟨x', hst.grown hg⟩
    · cases List.mem_singleton.1 hm
      simp at hp

/-- What is put into an image stands for parts of its container. -/
theorem Spans.put (hs : d.Spans h busy) (hd : d.Valid m h) (hop : (o, p) ∈ d.images)
    {k x k' x' : Value} (hk : k ∈ (h.node o).parts) (hx : x ∈ (h.node o).parts)
    (hsk : d.Stands k k') (hsx : d.Stands x x') : (d.put p k' x').Spans h busy := by
  have hg : d.Grown (some p) (d.put p k' x') := grown_put k' x'
  constructor
  · intro o' q hm y hy
    by_cases hq : q = p
    · subst hq
      cases hd.image_unique hm hop
      obtain ⟨c, hc⟩ := hd.container_of_mem (List.mem_map_of_mem hop)
      obtain ⟨c', hc', -, he⟩ := node_put_self k' x' (hd.images_lt o q hop) hc
      obtain ⟨e, hmem, hye⟩ := (Heap.mem_parts_container hc').1 hy
      rw [he] at hmem
      obtain ⟨hkey, hval⟩ := Entries.mem_insert hmem
      rcases hye with rfl | rfl
      · rcases hkey with hkey | ⟨e', he', hkey⟩
        · exact ⟨k, hk, hkey ▸ hsk.grown hg⟩
        · obtain ⟨z, hz, hst⟩ := hs.back o q hm e'.1 (Heap.fst_mem_parts hc he')
          exact ⟨z, hz, hkey ▸ hst.grown hg⟩
      · rcases hval with hval | hval
        · exact ⟨x, hx, hval ▸ hsx.grown hg⟩
        · obtain ⟨z, hz, hst⟩ := hs.back o q hm e.2 (Heap.snd_mem_parts hc hval)
          exact ⟨z, hz, hst.grown hg⟩
    · rw [node_put k' x' hq] at hy
      obtain ⟨z, hz, hst⟩ := hs.back o' q hm y hy
      exact ⟨z, hz, hst.grown hg⟩
  · intro o' q hm hq z hz
    obtain ⟨z', hst⟩ := hs.forth o' q hm hq z hz
    exact ⟨z', hst.grown hg⟩

/-- What a task comes to, whether entries are lost or not. -/
def Yields (d' : Draft) (w : Value) : Task → Prop
  | .value v => d'.Stands v w
  | .object o => d'.Stands (some o) w
  | .entries _ l => ∀ e ∈ l, (∃ k', d'.Stands e.1 k') ∧ ∃ x', d'.Stands e.2 x'

/-- Where entries come from. -/
def Within (h : Heap) (d : Draft) : Task → Prop
  | .entries p l => ∃ o, (o, p) ∈ d.images ∧
      ∀ e ∈ l, e.1 ∈ (h.node o).parts ∧ e.2 ∈ (h.node o).parts
  | _ => True

end Draft

/-- **Whatever is lost, what is rebuilt stands for the graph.** -/
theorem Rebuilds.spans {m : Manner} {h : Heap} {t : Task} {d d' : Draft} {w : Value}
    (hr : Rebuilds m h t d w d') (hv : d.Valid m h) (ht : t.Ready m d) (hw : d.Within h t)
    {busy : List ObjId} (hb : ∀ p, t.target = some p → p ∈ busy) (hs : d.Spans h busy) :
    d'.Spans h busy ∧ d'.Yields w t := by
  induction hr generalizing busy with
  | null => exact ⟨hs, .null⟩
  | @met d o p hm =>
    refine ⟨hs, .container ?_⟩
    unfold Draft.met at hm
    split at hm
    · obtain ⟨s, t, he, -⟩ := List.lookup_eq_some_iff.1 hm
      simp [he]
    · cases hm
  | unmet ho _ ih => exact ih hv ho trivial hb hs
  | @leaf d o a =>
    refine ⟨hs.of_node (Draft.grown_addLeaf a) fun o' p hm => ⟨hm, ?_⟩, .leaf ?_⟩
    · exact Draft.node_addLeaf a (hv.images_lt o' p hm)
    · simp [Draft.addLeaf]
  | sameLeaf =>
    refine ⟨hs.of_node Draft.grown_keepLeaf fun o' p hm => ⟨hm, rfl⟩, .leaf ?_⟩
    simp [Draft.keepLeaf]
  | @container d o c d' ho hr ih =>
    have hv' := hv.begin ht ho
    have hready : (Task.entries d.heap.size c.entries).Ready m (d.begin o c.type) := by
      simp [Task.Ready, Draft.begin]
    have hself : (o, d.heap.size) ∈ (d.begin o c.type).images := by simp [Draft.begin]
    have hparts : ∀ e ∈ c.entries, e.1 ∈ (h.node o).parts ∧ e.2 ∈ (h.node o).parts := fun e he =>
      ⟨Heap.fst_mem_parts ho he, Heap.snd_mem_parts ho he⟩
    obtain ⟨hs', hy⟩ := ih hv' hready ⟨o, hself, hparts⟩ (by simp [Task.target]) (hs.begin hv c.type)
    have hself' := hr.grown.images.subset hself
    refine ⟨⟨hs'.back, fun o' p hm hp x hx => ?_⟩, .container hself'⟩
    -- the new image is finished now
    by_cases hps : p = d.heap.size
    · subst hps
      cases (hr.valid hv' hready).image_unique hm hself'
      obtain ⟨e, he, rfl | rfl⟩ := (Heap.mem_parts_container ho).1 hx
      · exact (hy e he).1
      · exact (hy e he).2
    · exact hs'.forth o' p hm (by simp [hps, hp]) x hx
  | nil => exact ⟨hs, by simp [Draft.Yields]⟩
  | @cons d p k x l k' d₁ x' d₂ d' hk hx hl ihk ihx ihl =>
    obtain ⟨o, hop, hparts⟩ := hw
    obtain ⟨mk, mx⟩ := hparts (k, x) List.mem_cons_self
    have hv₁ := hk.valid hv trivial
    have hv₂ := hx.valid hv₁ trivial
    have hg : d.Grown none d₂ := hk.grown.trans hx.grown
    have hp := Task.Ready.of_prefix (m := m) (l := l) hg.images ht
    have hop₂ := hg.images.subset hop
    obtain ⟨hs₁, hsk⟩ := ihk hv trivial trivial (by simp [Task.target]) hs
    obtain ⟨hs₂, hsx⟩ := ihx hv₁ trivial trivial (by simp [Task.target]) hs₁
    have hs₃ := hs₂.put hv₂ hop₂ mk mx (Draft.Stands.grown hsk hx.grown) hsx
    have hgl : d₂.Grown (some p) d' := (Draft.grown_put k' x').trans hl.grown
    obtain ⟨hs', hy⟩ := ihl (hv₂.put hp k' x') hp
      ⟨o, hop₂, fun e he => hparts e (List.mem_cons_of_mem _ he)⟩ hb hs₃
    refine ⟨hs', List.forall_mem_cons.2 ⟨⟨⟨k', ?_⟩, ⟨x', ?_⟩⟩, hy⟩⟩
    · exact (Draft.Stands.grown hsk hx.grown).grown hgl
    · exact Draft.Stands.grown hsx hgl

namespace Draft

variable {m : Manner} {h h₀ : Heap} {d : Draft} {o p : ObjId} {v w : Value}

/-- Whether the containers of a result are those that stand for the containers of
    a graph, one for each. -/
structure Represents (h : Heap) (v : Value) (d : Draft) (w : Value) : Prop where
  stands : d.Stands v w
  once : (d.images.map Prod.fst).Nodup ∧ (d.images.map Prod.snd).Nodup
  image : ∀ o ∈ h.containersOf v, ∃ p, (o, p) ∈ d.images
  original : ∀ p ∈ d.heap.containersOf w, ∃ o ∈ h.containersOf v, (o, p) ∈ d.images

theorem Spans.leads (hs : d.Spans h []) (hd : d.Valid m h) (hst : d.Stands v w)
    (hl : h.Leads v o) : ∃ p, d.Stands (some o) (some p) := by
  induction hl generalizing w with
  | @self o =>
    cases w with
    | none => cases hst
    | some p => exact ⟨p, hst⟩
  | @part o x q hx _ ih =>
    cases w with
    | none => cases hst
    | some p =>
      rcases hd.nodes hst with ⟨_, _, hm, -⟩ | ⟨a, -, ha, -⟩
      · obtain ⟨x', hx'⟩ := hs.forth o p hm List.not_mem_nil x hx
        exact ih hx'
      · simp [ha, Node.parts] at hx

theorem Spans.leads_back (hs : d.Spans h []) (hd : d.Valid m h) (hst : d.Stands v w)
    (hl : d.heap.Leads w p) : ∃ o, h.Leads v o ∧ d.Stands (some o) (some p) := by
  induction hl generalizing v with
  | @self p =>
    cases v with
    | none => cases hst
    | some o => exact ⟨o, .self, hst⟩
  | @part p x q hx _ ih =>
    cases v with
    | none => cases hst
    | some o =>
      rcases hd.nodes hst with ⟨_, _, hm, -⟩ | ⟨a, -, -, ha⟩
      · obtain ⟨y, hy, hyx⟩ := hs.back o p hm x hx
        obtain ⟨z, hz, hzq⟩ := ih hyx
        exact ⟨z, .part hy hz, hzq⟩
      · simp [ha, Node.parts] at hx

end Draft

/-- **The containers of what is rebuilt stand for those of the graph.** -/
theorem Rebuilds.represents {m : Manner} {h h₀ : Heap} {d : Draft} {v w : Value}
    (hr : Rebuilds m h (.value v) (.start h₀) w d) (hm : m.shares = true) :
    d.Represents h v w := by
  have hd := hr.valid (Draft.valid_start h₀) trivial
  obtain ⟨hs, hst⟩ := hr.spans (Draft.valid_start h₀) trivial trivial (by simp [Task.target])
    (Draft.spans_start h₀)
  refine ⟨hst, ⟨hd.shared hm, hd.images_nodup⟩, ?_, ?_⟩
  · rintro o ⟨hl, c, hc⟩
    obtain ⟨p, hp⟩ := hs.leads hd hst hl
    rcases hd.nodes hp with ⟨_, _, hop, -⟩ | ⟨a, -, ha, -⟩
    · exact ⟨p, hop⟩
    · cases hc.symm.trans ha
  · rintro p ⟨hl, c, hc⟩
    obtain ⟨o, ho, hp⟩ := hs.leads_back hd hst hl
    rcases hd.nodes hp with ⟨c', _, hop, hc', -⟩ | ⟨a, -, -, ha⟩
    · exact ⟨o, ⟨ho, c', hc'⟩, hop⟩
    · cases hc.symm.trans ha

/-! ## What is kept -/

/-- Whether every image has as many entries as its container. -/
def Draft.Keeps (h : Heap) (d : Draft) : Prop :=
  ∀ o p, (o, p) ∈ d.images → (d.heap.entries p).length = (h.entries o).length

/-- **The number of entries is kept iff no key is taken for another.** -/
theorem Rebuilds.keeps_iff {m : Manner} {h h₀ : Heap} {d : Draft} {v w : Value}
    (hr : Rebuilds m h (.value v) (.start h₀) w d) : d.Keeps h ↔ h.Lossless m h₀ v := by
  refine hr.forall_length_eq_iff.trans ⟨fun hl w' d' hr' => ?_, fun hl => hl w d hr⟩
  obtain ⟨-, rfl⟩ := hr.unique hr'
  exact hl

namespace Engine

variable {e : Engine} {h : Heap} {v : Value}

/-- **Reading and copying keep the number of entries of all containers iff no key is
    taken for another**, and none is where keys lead into no cycle. -/
theorem entries_kept_iff (he : e.Assembled) (hv : h.Closed v) :
    (e.config.trackRef = true → e.Fits h v → ∀ bs h₀, e.serialize h v = .ok bs →
      ∃ (w : Value) (d : Draft), e.deserialize h₀ bs = .ok (w, d.heap) ∧ d.Represents h v w ∧
        (d.Keeps h ↔ h.Lossless e.manner h₀ v)) ∧
    (∀ w h', e.copy h v = .ok (w, h') → ∃ d : Draft, h' = d.heap ∧ d.Represents h v w ∧
      (d.Keeps h ↔ h.Lossless .copying h v)) ∧
    (h.WellKeyed v → ∀ m h₀, h.Lossless m h₀ v) := by
  refine ⟨fun ht hfit bs h₀ hs => ?_, fun w h' hc => ?_, fun hk _ h₀ => hk.lossless h₀⟩
  · obtain ⟨w, d, hr, hd⟩ := deserialize_of_serialize he.sound hs hfit h₀
    exact ⟨w, d, hd, hr.represents ht, hr.keeps_iff⟩
  · obtain ⟨d, hr, hd⟩ := rebuilds_of_copy he.sound hv hc
    exact ⟨d, hd, hr.represents rfl, hr.keeps_iff⟩

/-- Two containers that lead to each other through a third, which has both as keys. -/
def crossing : Heap :=
  let h := (Heap.empty.alloc (.container (.empty .linked))).2
  let h := (h.alloc (.container (.empty .linked))).2
  let h := (h.alloc (.container (.empty .linked))).2
  let h := ((h.alloc (.leaf (.string "b"))).2.insert 0 (some 3) (some 1)).2
  let h := ((h.alloc (.leaf (.string "m"))).2.insert 1 (some 4) (some 2)).2
  let h := ((h.alloc (.leaf (.i32 1))).2.insert 2 (some 0) (some 5)).2
  ((h.alloc (.leaf (.i32 2))).2.insert 2 (some 1) (some 6)).2

/-- An engine that tracks references. -/
def tracking : Engine := { config := { trackRef := true } }

/-- The bytes of the two containers and of the third. -/
def crossingBytes : Bytes :=
  [10, 11, 0, 1, 9, 1, 98, 11, 0, 1, 9, 1, 109, 11, 0, 2, 11, 254, 0, 5, 2, 11, 254, 1, 5, 4]

theorem closed_crossing : crossing.Closed (some 0) :=
  Heap.closed_of_parts (by decide +kernel) (by decide)

theorem tidy_crossing : crossing.Tidy (some 0) :=
  Heap.tidy_of_apart (by decide +kernel)

theorem entries_kept_iff_crossing :
    tracking.serialize crossing (some 0) = .ok crossingBytes ∧
    (∃ (w : Value) (d : Draft), tracking.deserialize .empty crossingBytes = .ok (w, d.heap) ∧
      d.Represents crossing (some 0) w ∧
        (d.Keeps crossing ↔ crossing.Lossless tracking.manner .empty (some 0))) ∧
    ∃ w h', tracking.copy crossing (some 0) = .ok (w, h') ∧ ∃ d : Draft, h' = d.heap ∧
      d.Represents crossing (some 0) w ∧
        (d.Keeps crossing ↔ crossing.Lossless .copying crossing (some 0)) := by
  have hs : tracking.serialize crossing (some 0) = .ok crossingBytes := by decide +kernel
  obtain ⟨hread, hcopy, -⟩ := entries_kept_iff (e := tracking) (.start _) closed_crossing
  have hfit := fits_of_nodes tracking (h := crossing) (by decide +kernel) (by decide) (some 0)
  refine ⟨hs, hread rfl hfit _ .empty hs, ?_⟩
  cases hc : tracking.copy crossing (some 0) with
  | ok r => exact ⟨r.1, r.2, rfl, hcopy r.1 r.2 hc⟩
  | error err =>
    have hok : (tracking.copy crossing (some 0)).toOption.isSome = true := by decide +kernel
    simp [hc, Except.toOption] at hok

/-- The two keys of the third container differ, but not as long as the containers
    that they are have no entries yet. -/
theorem entry_lost_of_crossing :
    crossing.Tidy (some 0) ∧ [0, 1, 2].map crossing.entries =
        [[(some 3, some 1)], [(some 4, some 2)], [(some 0, some 5), (some 1, some 6)]] ∧
    tracking.serialize crossing (some 0) = .ok crossingBytes ∧
    ((tracking.deserialize .empty crossingBytes).map fun r : Value × Heap =>
        (r.1, [0, 2, 4].map r.2.entries)) =
      .ok (some 0, [[(some 1, some 2)], [(some 3, some 4)], [(some 0, some 6)]]) ∧
    ((tracking.copy crossing (some 0)).map fun r : Value × Heap =>
        (r.1, [7, 8, 9].map r.2.entries)) =
      .ok (some 7, [[(some 3, some 8)], [(some 4, some 9)], [(some 7, some 6)]]) := by
  refine ⟨tidy_crossing, ?_, ?_, ?_, ?_⟩ <;> decide +kernel

end Engine

end GraphWire

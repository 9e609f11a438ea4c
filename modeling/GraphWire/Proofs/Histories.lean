/-
  What was asked for before.

  A registry changes while serializers are built: types are marked and unmarked, and what was
  built is kept.  None of that shows in what is answered.

  * `Registry.Stage` says what a registry may have become on the way down from one type to
    another, and `Registry.follows_demandWithin` that asking at any stage gives the outcome
    and leads to a stage on the same way;
  * `Registry.Settled` says what a registry is when nothing is being built;
    `Registry.Settled.of_stage` and `Registry.Settled.register`: it stays so when serializers
    are asked for and when types are registered;
  * `Registry.Settled.serializer_of_perm`: it does not matter in which order that was.
-/
import GraphWire.Proofs.Dependencies

namespace GraphWire

namespace Registration

/-- What a registration says, whatever was built of it. -/
def said (reg : Registration) : ClassInfo × Recipe := (reg.toClassInfo, reg.recipe)

/-- Whether nothing was built of a registration. -/
def Unbuilt (reg : Registration) : Prop := reg.built = none ∧ reg.building = false

end Registration

namespace Registry

variable {r r' : Registry} {t u : ObjectType} {s : Serializer} {e : Error} {depth : Nat}
  {path : List ObjectType} {ask ask' : ObjectType → Except Error Serializer}

/-! ## What is kept and what is marked -/

/-- What is found is found by what is said of it. -/
theorem map_said_find? : (r.find? t).map (·.said) =
    (r.registrations.map (·.said)).find? fun i => i.1.type == t := by
  rw [List.find?_map]
  rfl

/-- Whether the same is said of all types in two registries. -/
def Alike (r r' : Registry) : Prop := ∀ t, (r'.find? t).map (·.said) = (r.find? t).map (·.said)

namespace Alike

theorem found (h : r.Alike r') {reg : Registration} (hreg : r.find? t = some reg) :
    ∃ reg', r'.find? t = some reg' ∧ reg'.toClassInfo = reg.toClassInfo ∧
      reg'.recipe = reg.recipe := by
  have hfind := h t
  rw [hreg] at hfind
  obtain ⟨reg', hreg', heq⟩ := Option.map_eq_some_iff.1 hfind
  exact ⟨reg', hreg', congrArg Prod.fst heq, congrArg Prod.snd heq⟩

theorem not_found (h : r.Alike r') (hreg : r.find? t = none) : r'.find? t = none := by
  have hfind := h t
  rwa [hreg, Option.map_none, Option.map_eq_none_iff] at hfind

theorem classOf (h : r.Alike r') (t : ObjectType) : r'.classOf t = r.classOf t := by
  unfold Registry.classOf
  cases hreg : r.find? t with
  | none => rw [h.not_found hreg]
  | some reg =>
    obtain ⟨reg', hreg', hclass, -⟩ := h.found hreg
    rw [hreg']
    exact congrArg Except.ok hclass

/-- Outcomes depend on what is said and on nothing else. -/
theorem outcome (h : r.Alike r') : r'.outcome depth path t = r.outcome depth path t := by
  have hmap : ∀ ask b, r'.mapOutcome ask b = r.mapOutcome ask b := by
    intro ask b
    unfold mapOutcome sideOutcome
    simp only [h.classOf]
  induction depth generalizing path t with
  | zero => rfl
  | succ depth ih =>
    cases hreg : r.find? t with
    | none => rw [outcome_of_none hreg, outcome_of_none (h.not_found hreg)]
    | some reg =>
      obtain ⟨reg', hreg', -, hrecipe'⟩ := h.found hreg
      cases hrecipe : reg.recipe with
      | ready s =>
        rw [outcome_of_ready hreg hrecipe, outcome_of_ready hreg' (hrecipe'.trans hrecipe)]
      | failing e =>
        rw [outcome_of_failing hreg hrecipe, outcome_of_failing hreg' (hrecipe'.trans hrecipe)]
      | binding b =>
        have hask : r'.outcome depth (t :: path) = r.outcome depth (t :: path) := funext fun _ => ih
        rw [outcome_of_binding hreg hrecipe, outcome_of_binding hreg' (hrecipe'.trans hrecipe),
          hmap, hask]

end Alike

/-- What a registry has become while serializers are built: both tables still hold the same, the
    types on the way are marked, and what was built for a type is its serializer. -/
structure Stage (r : Registry) (path : List ObjectType) (r' : Registry) : Prop where
  tables : r'.byId = r'.registrations
  said : r'.registrations.map (·.said) = r.registrations.map (·.said)
  marked : ∀ t reg, r'.find? t = some reg → (reg.building = true ↔ t ∈ path)
  built : ∀ t reg s, r'.find? t = some reg → reg.built = some s →
    ∃ d p, r.outcome d p t = .ok s

/-- What is found after a change of one registration. -/
theorem find?_update {change : Registration → Registration}
    (hc : ∀ reg, (change reg).type = reg.type) :
    (r.update t change).find? u = (r.find? u).map fun reg => if u = t then change reg else reg := by
  unfold find? update
  rw [List.find?_map]
  have hsame : ((fun reg : Registration => reg.type == u) ∘
      fun reg => if reg.type == t then change reg else reg) = fun reg => reg.type == u := by
    funext reg
    dsimp only [Function.comp_apply]
    split
    · rw [hc]
    · rfl
  rw [hsame]
  cases hreg : r.registrations.find? (·.type == u) with
  | none => rfl
  | some reg =>
    have ht : reg.type = u := type_of_find? (r := r) hreg
    simp [ht]

namespace Stage

theorem length (h : r.Stage path r') : r'.registrations.length = r.registrations.length := by
  simpa using congrArg List.length h.said

theorem alike (h : r.Stage path r') : r.Alike r' := by
  intro t
  rw [map_said_find?, map_said_find?, h.said]

/-- Changes of what is built and being built of one type. -/
theorem update (h : r.Stage path r') {path' : List ObjectType}
    {change : Registration → Registration}
    (hsame : ∀ reg, (change reg).toClassInfo = reg.toClassInfo ∧ (change reg).recipe = reg.recipe)
    (hmarked : ∀ u, (u ∈ path' ↔ u ∈ path) ∨ u = t)
    (hmark : ∀ reg, r'.find? t = some reg → ((change reg).building = true ↔ t ∈ path'))
    (hbuilt : ∀ reg s, r'.find? t = some reg → (change reg).built = some s →
      reg.built = some s ∨ ∃ d p, r.outcome d p t = .ok s) :
    r.Stage path' (r'.update t change) := by
  have hfind : ∀ u, (r'.update t change).find? u = (r'.find? u).map fun reg =>
      if u = t then change reg else reg := fun u =>
    find?_update fun reg => congrArg ClassInfo.type (hsame reg).1
  refine ⟨congrArg (List.map _) h.tables, ?_, fun u reg hreg => ?_, fun u reg s hreg hs => ?_⟩
  · rw [← h.said]
    unfold Registry.update
    rw [List.map_map]
    refine List.map_congr_left fun reg _ => ?_
    dsimp only [Function.comp_apply]
    split
    · exact Prod.ext (hsame reg).1 (hsame reg).2
    · rfl
  · rw [hfind] at hreg
    obtain ⟨reg', hreg', rfl⟩ := Option.map_eq_some_iff.1 hreg
    by_cases hu : u = t
    · subst hu
      simpa using hmark reg' hreg'
    · rw [if_neg hu, h.marked u reg' hreg']
      exact ((hmarked u).resolve_right hu).symm
  · rw [hfind] at hreg
    obtain ⟨reg', hreg', rfl⟩ := Option.map_eq_some_iff.1 hreg
    by_cases hu : u = t
    · subst hu
      rw [if_pos rfl] at hs
      exact (hbuilt reg' s hreg' hs).elim (h.built u reg' s hreg') id
    · rw [if_neg hu] at hs
      exact h.built u reg' s hreg' hs

theorem mark (h : r.Stage path r') : r.Stage (t :: path) (r'.mark true t) :=
  h.update (fun _ => ⟨rfl, rfl⟩) (fun u => by by_cases u = t <;> simp [*])
    (fun _ _ => by simp) fun _ _ _ hs => Or.inl hs

theorem unmark (h : r.Stage (t :: path) r') (ht : t ∉ path) : r.Stage path (r'.mark false t) :=
  h.update (fun _ => ⟨rfl, rfl⟩) (fun u => by by_cases u = t <;> simp [*])
    (fun _ _ => by simp [ht]) fun _ _ _ hs => Or.inl hs

theorem keep (h : r.Stage path r') (hs : r.outcome depth path t = .ok s) :
    r.Stage path (r'.keep s t) :=
  h.update (fun _ => ⟨rfl, rfl⟩) (fun u => Or.inl Iff.rfl) (fun reg hreg => h.marked t reg hreg)
    fun _ s' _ hs' => Or.inr ⟨depth, path, by cases hs'; exact hs⟩

end Stage

/-! ## Asking -/

/-- Whether a computation ends as it should wherever it starts from a stage on the way, and
    leaves one. -/
def Follows {α : Type} (r : Registry) (path : List ObjectType) (x : Resolving α)
    (y : Except Error α) : Prop :=
  ∀ r', r.Stage path r' → ∃ r'', r.Stage path r'' ∧ x r' = attempt y r''

namespace Follows

variable {α β : Type} {x : Resolving α} {y : Except Error α}

protected theorem attempt (y : Except Error α) : r.Follows path (attempt y) y :=
  fun r' h => ⟨r', h, rfl⟩

protected theorem bind {f : α → Resolving β} {g : α → Except Error β} (hx : r.Follows path x y)
    (hf : ∀ a, y = .ok a → r.Follows path (f a) (g a)) : r.Follows path (x >>= f) (y >>= g) := by
  intro r' h
  obtain ⟨r₁, h₁, hr₁⟩ := hx r' h
  cases y with
  | ok a =>
    obtain ⟨r₂, h₂, hr₂⟩ := hf a rfl r₁ h₁
    exact ⟨r₂, h₂, (bind_of_ok hr₁).trans hr₂⟩
  | error e => exact ⟨r₁, h₁, bind_eq_error.2 (Or.inl hr₁)⟩

/-- What is built under a mark is built on a way that is one type longer; then it is kept. -/
theorem marking {x : Resolving Serializer} {y : Except Error Serializer}
    (hx : r.Follows (t :: path) x y) (depth : Nat) (ht : t ∉ path)
    (hy : ∀ s, y = .ok s → r.outcome depth path t = .ok s) : r.Follows path (do
      modify (mark true t)
      let s ← leaving (mark false t) x
      modify (keep s t)
      pure s) y := by
  intro r' h
  obtain ⟨r₁, h₁, hr₁⟩ := hx _ h.mark
  have hleave : leaving (mark false t) x (r'.mark true t) = attempt y (r₁.mark false t) := by
    unfold leaving
    rw [hr₁]
    cases y <;> rfl
  rw [modify_bind]
  cases y with
  | error e => exact ⟨_, h₁.unmark ht, bind_eq_error.2 (Or.inl hleave)⟩
  | ok s => exact ⟨_, (h₁.unmark ht).keep (hy s rfl), bind_of_ok hleave⟩

end Follows

theorem follows_bindSide {demand : ObjectType → Resolving Serializer} {side : Side}
    {b : SideBinding} (hd : ∀ u, b.Needs u → r.Follows path (demand u) (ask u)) :
    r.Follows path (bindSide demand side b) (r.sideOutcome ask side b) := by
  obtain ⟨type, serializer, nullable⟩ := b
  intro r' h
  unfold bindSide sideOutcome
  cases type with
  | none => cases serializer <;> exact ⟨r', h, rfl⟩
  | some type =>
    dsimp only
    rw [get_bind, h.alike.classOf]
    cases serializer with
    | some s => exact (Follows.attempt _).bind (fun c _ => Follows.attempt (.ok _)) r' h
    | none =>
      refine (Follows.attempt _).bind (fun c _ => ?_) r' h
      exact (hd type ⟨rfl, rfl⟩).bind fun s _ => Follows.attempt (.ok _)

theorem follows_build {demand : ObjectType → Resolving Serializer} {b : MapBinding}
    (hd : ∀ u, b.Needs u → r.Follows path (demand u) (ask u)) :
    r.Follows path (build demand (.binding b)) (r.mapOutcome ask b) :=
  (follows_bindSide fun u hu => hd u (Or.inl hu)).bind fun _ _ =>
    (follows_bindSide fun u hu => hd u (Or.inr hu)).bind fun _ _ => Follows.attempt (.ok _)

/-- A serializer that was built before is what it would be now: nothing on the way to its type
    is reached again, or it could not have been built. -/
theorem Stage.outcome_of_built (h : r.Stage path r') {reg : Registration}
    (hreg : r'.find? t = some reg) (hs : reg.built = some s) (hroom : r.Room depth path)
    (hp : ∀ u ∈ path, Relation.TransGen r.Depends u t) : r.outcome depth path t = .ok s := by
  obtain ⟨d, p, hd⟩ := h.built t reg s hreg hs
  refine outcome_stable hd hroom fun u hu htu => not_cyclic_of_outcome hd ?_
  exact Relation.TransGen.trans_right htu (hp u hu)

section
variable {reg : Registration}

theorem demandWithin_of_none (h : r.find? t = none) :
    demandWithin (depth + 1) t r = .error (.unregisteredType t) r := by
  unfold demandWithin
  rw [get_bind, h]
  rfl

/-- A serializer that is there is given. -/
theorem demandWithin_of_there (h : r.find? t = some reg)
    (hs : reg.built = some s ∨ reg.built = none ∧ reg.recipe = .ready s) :
    demandWithin (depth + 1) t r = .ok s r := by
  unfold demandWithin
  rw [get_bind, h]
  rcases hs with hs | ⟨hn, hs⟩
  · simp only [hs]
    rfl
  · simp only [hn, hs]
    rfl

/-- One that is not there is built under a mark, unless its type is on the way already. -/
theorem demandWithin_of_missing (h : r.Stage path r') (hreg : r'.find? t = some reg)
    (hn : reg.built = none) (hs : ∀ s, reg.recipe ≠ .ready s) :
    demandWithin (depth + 1) t r' = if t ∈ path then .error (.selfDependent t) r' else (do
      modify (mark true t)
      let s ← leaving (mark false t) (build (demandWithin depth) reg.recipe)
      modify (keep s t)
      pure s : Resolving Serializer) r' := by
  refine Eq.trans ?_ (if_congr (h.marked t reg hreg) rfl rfl)
  unfold demandWithin
  rw [get_bind, hreg]
  cases hrecipe : reg.recipe with
  | ready s => exact absurd hrecipe (hs s)
  | binding b =>
    simp only [hn, hrecipe]
    split <;> rfl
  | failing e =>
    simp only [hn, hrecipe]
    split <;> rfl

end

/-- What has no dependencies is not on a way of them. -/
theorem not_mem_of_failing {reg : Registration} (hreg : r.find? t = some reg)
    (hrecipe : reg.recipe = .failing e) (hp : ∀ u ∈ path, Relation.TransGen r.Depends u t) :
    t ∉ path := by
  intro ht
  obtain ⟨u, ⟨reg', b, hreg', hrecipe', -⟩, -⟩ := Relation.TransGen.head'_iff.1 (hp t ht)
  cases hreg.symm.trans hreg'
  cases hrecipe.symm.trans hrecipe'

/-- **Asking for a serializer gives its outcome**, whatever was asked for before. -/
theorem follows_demandWithin (hroom : r.Room depth path)
    (hp : ∀ u ∈ path, Relation.TransGen r.Depends u t) :
    r.Follows path (demandWithin depth t) (r.outcome depth path t) := by
  induction depth generalizing path t with
  | zero =>
    obtain ⟨d, hd⟩ := hroom.exists_succ
    cases hd
  | succ depth ih =>
    intro r' h
    cases hreg : r.find? t with
    | none =>
      rw [outcome_of_none hreg, demandWithin_of_none (h.alike.not_found hreg)]
      exact ⟨r', h, rfl⟩
    | some reg =>
      obtain ⟨reg', hreg', -, hrecipe'⟩ := h.alike.found hreg
      cases hbuilt : reg'.built with
      | some s =>
        rw [h.outcome_of_built hreg' hbuilt hroom hp, demandWithin_of_there hreg' (Or.inl hbuilt)]
        exact ⟨r', h, rfl⟩
      | none =>
        cases hrecipe : reg.recipe with
        | ready s =>
          rw [outcome_of_ready hreg hrecipe,
            demandWithin_of_there hreg' (Or.inr ⟨hbuilt, hrecipe'.trans hrecipe⟩)]
          exact ⟨r', h, rfl⟩
        | failing e =>
          have ht := not_mem_of_failing hreg hrecipe hp
          rw [outcome_of_failing hreg hrecipe, demandWithin_of_missing h hreg' hbuilt
            (by simp [hrecipe', hrecipe]), if_neg ht, hrecipe', hrecipe]
          exact (Follows.attempt (.error e)).marking depth ht (by simp) r' h
        | binding b =>
          rw [outcome_of_binding hreg hrecipe, demandWithin_of_missing h hreg' hbuilt
            (by simp [hrecipe', hrecipe]), hrecipe', hrecipe]
          by_cases ht : t ∈ path
          · rw [if_pos ht, if_pos ht]
            exact ⟨r', h, rfl⟩
          · rw [if_neg ht, if_neg ht]
            refine (follows_build fun u hneeds => ?_).marking (depth + 1) ht
              (fun s hs => ?_) r' h
            · have hd : r.Depends t u := ⟨reg, b, hreg, hrecipe, hneeds⟩
              exact ih (hroom.cons ht hreg)
                (List.forall_mem_cons.2 ⟨.single hd, fun v hv => (hp v hv).tail hd⟩)
            · rw [outcome_of_binding hreg hrecipe, if_neg ht, hs]

/-! ## Between calls -/

/-- What is left of a registry when the serializer of a type was asked for, in vain or not. -/
def asked (r : Registry) (t : ObjectType) : Registry :=
  match demand t r with
  | .ok _ r' | .error _ r' => r'

theorem Stage.demand (h : r.Stage [] r') (t : ObjectType) : r.Stage [] (r'.asked t) ∧
    r'.serializer t = r.outcome (r.registrations.length + 1) [] t := by
  obtain ⟨r'', h'', hr''⟩ := follows_demandWithin (t := t) room_start (by simp) r' h
  have hdemand : Registry.demand t r' =
      attempt (r.outcome (r.registrations.length + 1) [] t) r'' := by
    rw [← hr'', Registry.demand, h.length]
  unfold asked serializer resultOf
  rw [hdemand]
  cases r.outcome (r.registrations.length + 1) [] t <;> exact ⟨h'', rfl⟩

/-- What a registry is between calls: each type and each id stands once, no type is marked, and
    what was built for a type is its serializer. -/
structure Settled (r : Registry) : Prop where
  types : (r.registrations.map (·.type)).Nodup
  ids : (r.registrations.map (·.id)).Nodup
  stage : r.Stage [] r

/-- Nothing was built yet of leaves and containers that are registered. -/
theorem Sound.settled (hr : r.Sound) : r.Settled where
  types := hr.types
  ids := hr.ids
  stage := {
    tables := hr.tables
    said := rfl
    marked := fun t reg hreg => by simp [(hr.of_find? hreg).not_built.2]
    built := fun t reg s hreg hs => by
      rw [(hr.of_find? hreg).not_built.1] at hs
      cases hs }

/-- Asking for serializers changes nothing that shows. -/
theorem Settled.of_stage (h : r.Settled) (hstage : r.Stage [] r') : r'.Settled := by
  refine ⟨?_, ?_, hstage.tables, rfl, hstage.marked, fun u reg s hreg hs => ?_⟩
  · have htypes := congrArg (List.map (·.1.type)) hstage.said
    rw [List.map_map, List.map_map] at htypes
    exact htypes ▸ h.types
  · have hids := congrArg (List.map (·.1.id)) hstage.said
    rw [List.map_map, List.map_map] at hids
    exact hids ▸ h.ids
  · obtain ⟨d, p, hd⟩ := hstage.built u reg s hreg hs
    exact ⟨d, p, hstage.alike.outcome.trans hd⟩

/-- What is found in a registry that has more types. -/
theorem sideOutcome_mono (hr : ∀ t reg, r.find? t = some reg → r'.find? t = some reg)
    (hask : ∀ u s, ask u = .ok s → ask' u = .ok s) {side : Side} {b : SideBinding}
    {setup : SideSetup Serializer} (h : r.sideOutcome ask side b = .ok setup) :
    r'.sideOutcome ask' side b = .ok setup := by
  obtain ⟨type, serializer, nullable⟩ := b
  cases type with
  | none => cases serializer <;> exact h
  | some type =>
    obtain ⟨c, hc, h⟩ := except_bind_eq_ok.1 h
    obtain ⟨s, hs, h⟩ := except_bind_eq_ok.1 h
    obtain ⟨reg, hreg, hclass⟩ := classOf_eq_ok.1 hc
    refine except_bind_eq_ok.2 ⟨c, classOf_eq_ok.2 ⟨reg, hr _ _ hreg, hclass⟩, ?_⟩
    refine except_bind_eq_ok.2 ⟨s, ?_, h⟩
    cases serializer with
    | some s' => exact hs
    | none => exact hask _ _ hs

theorem outcome_mono (hr : ∀ t reg, r.find? t = some reg → r'.find? t = some reg)
    (h : r.outcome depth path t = .ok s) : r'.outcome depth path t = .ok s := by
  induction depth generalizing path t s with
  | zero => cases h
  | succ depth ih =>
    obtain ⟨reg, hreg, hready | ⟨ht, b, hrecipe, hmap⟩⟩ := outcome_eq_ok h
    · exact outcome_of_ready (hr _ _ hreg) hready
    · obtain ⟨key, hkey, hmap⟩ := except_bind_eq_ok.1 hmap
      obtain ⟨value, hvalue, hmap⟩ := except_bind_eq_ok.1 hmap
      have hask : ∀ u s, r.outcome depth (t :: path) u = .ok s →
          r'.outcome depth (t :: path) u = .ok s := fun _ _ => ih
      rw [outcome_of_binding (hr _ _ hreg) hrecipe, if_neg ht]
      exact except_bind_eq_ok.2 ⟨key, sideOutcome_mono hr hask hkey,
        except_bind_eq_ok.2 ⟨value, sideOutcome_mono hr hask hvalue, hmap⟩⟩

/-- A type that is registered later leaves what was built as it is. -/
theorem Settled.register (h : r.Settled) {reg : Registration} (hreg : reg.Unbuilt)
    (hr : r.register reg = .ok r') : r'.Settled := by
  obtain ⟨hadd, htypes, hids⟩ := register_eq_ok hr
  have hfind : ∀ t reg', r'.find? t = some reg' →
      r.find? t = some reg' ∨ r.find? t = none ∧ reg' = reg := by
    intro t reg' h'
    unfold find? at h' ⊢
    rw [hadd, List.find?_append, Option.or_eq_some_iff] at h'
    refine h'.imp_right fun ⟨hnone, h'⟩ => ⟨hnone, ?_⟩
    exact List.mem_singleton.1 (List.mem_of_find?_eq_some h')
  have hmono : ∀ t reg', r.find? t = some reg' → r'.find? t = some reg' := fun _ _ =>
    find?_of_register hr
  refine ⟨?_, ?_, ?_⟩
  · rw [hadd]
    exact nodup_concat h.types htypes
  · rw [hadd]
    exact nodup_concat h.ids (h.stage.tables ▸ hids)
  · refine ⟨?_, rfl, fun t reg' h' => ?_, fun t reg' s h' hs => ?_⟩
    · rw [hadd]
      exact congrArg (· ++ [reg]) h.stage.tables
    · rcases hfind t reg' h' with h' | ⟨-, rfl⟩
      · exact h.stage.marked t reg' h'
      · simp [hreg.2]
    · rcases hfind t reg' h' with h' | ⟨-, rfl⟩
      · obtain ⟨d, p, hd⟩ := h.stage.built t reg' s h' hs
        exact ⟨d, p, outcome_mono hmono hd⟩
      · rw [hreg.1] at hs
        cases hs

/-! ## The order of registration -/

/-- What stands once is found in any order. -/
theorem find?_perm {α κ : Type} [BEq κ] [LawfulBEq κ] {key : α → κ} {l l' : List α}
    (h : l.Perm l') (hl : l.Pairwise fun a b => key a ≠ key b) (k : κ) :
    l.find? (key · == k) = l'.find? (key · == k) := by
  induction h with
  | nil => rfl
  | cons a _ ih => rw [List.find?_cons, List.find?_cons, ih hl.of_cons]
  | swap a b l =>
    have hne : key b ≠ key a := List.rel_of_pairwise_cons hl List.mem_cons_self
    by_cases ha : key a = k
    · have hb : key b ≠ k := ha ▸ hne
      simp [ha, hb]
    · simp [List.find?_cons, ha]
  | trans h _ ih ih' => rw [ih hl, ih' (h.pairwise hl Ne.symm)]

/-- Registries in which the same was registered in another order. -/
theorem Settled.alike_of_perm (h : r.Settled)
    (hperm : (r.registrations.map (·.said)).Perm (r'.registrations.map (·.said))) :
    r.Alike r' := by
  intro t
  have hkeys : (r.registrations.map (·.said)).Pairwise fun a b => a.1.type ≠ b.1.type :=
    List.pairwise_map.2 (List.pairwise_map.1 h.types)
  rw [map_said_find?, map_said_find?]
  exact (find?_perm hperm hkeys t).symm

/-- They have the same serializers. -/
theorem Settled.serializer_of_perm (h : r.Settled) (h' : r'.Settled)
    (hperm : (r.registrations.map (·.said)).Perm (r'.registrations.map (·.said))) :
    r'.serializer = r.serializer := by
  have hlength := hperm.length_eq
  rw [List.length_map, List.length_map] at hlength
  funext t
  rw [(h.stage.demand t).2, (h'.stage.demand t).2, ← hlength]
  exact (h.alike_of_perm hperm).outcome

end Registry

end GraphWire

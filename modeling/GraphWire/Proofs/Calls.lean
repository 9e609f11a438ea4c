/-
  Calls of an engine.

  An application registers types, asks for serializers, and writes, reads and copies graphs, in
  any order and as often as it likes; some of it fails.  All that the registry hears of the
  writing, the reading and the copying are dialogues (`Engine.asked_perform`), so that a call
  that registers nothing is one.

  * `Engine.calls` is what such a history makes of a new engine;
  * `Engine.settled_calls`: its registry is settled after every call;
  * `Engine.serializer_by_dependencies`: so it matters neither in which order types were
    registered nor what was done before.
-/
import GraphWire.Proofs.Dialogues

namespace GraphWire

namespace Engine

/-- What an engine is called for: a type is registered, or something comes about in a dialogue
    with the registry. -/
inductive Call where
  | register (reg : Registration)
  | use {α : Type} (d : Dialogue α)

/-- The serializer of a type is asked for. -/
def Call.ask (type : ObjectType) : Call := .use (.ask type .done)

/-- What a call makes of an engine, in vain or not. -/
def call (e : Engine) : Call → Engine
  | .register reg =>
    match e.register reg with
    | .ok e' => e'
    | .error _ => e
  | .use d => { e with registry := (d.hold e.registry).2 }

/-- What calls have made of a new engine. -/
def calls (config : Config) (history : List Call) : Engine := history.foldl call { config }

/-- Whether nothing was built of what is registered. -/
def Call.New : Call → Prop
  | .register reg => reg.Unbuilt
  | .use _ => True

variable {e e' : Engine} {config : Config} {history : List Call}

/-- What is registered is new beside what there is, and the configuration stays. -/
theorem register_eq_ok {reg : Registration} (hr : e.register reg = .ok e') :
    e'.config = e.config ∧ Registry.firstFreeId ≤ reg.id ∧ e.registry.Admits reg := by
  unfold register stateOf at hr
  obtain ⟨⟨err, hadd⟩, -⟩ | ⟨r, hadd, -, hnew⟩ := add_cases e reg
  · rw [hadd] at hr
    cases hr
  · rw [hadd] at hr
    cases hr
    exact ⟨rfl, hnew⟩

/-- A call changes nothing, or a dialogue was held, or a type was registered. -/
theorem call_cases (e : Engine) (c : Call) :
    e.call c = e ∨
    (∃ (α : Type) (d : Dialogue α),
      c = .use d ∧ e.call c = { e with registry := (d.hold e.registry).2 }) ∨
    ∃ reg, c = .register reg ∧ e.register reg = .ok (e.call c) := by
  cases c with
  | use d => exact Or.inr (Or.inl ⟨_, d, rfl, rfl⟩)
  | register reg =>
    cases hr : e.register reg with
    | ok e' => exact Or.inr (Or.inr ⟨reg, rfl, by simp only [call, hr]⟩)
    | error err => exact Or.inl (by simp only [call, hr])

theorem config_call (e : Engine) (c : Call) : (e.call c).config = e.config := by
  obtain hcall | ⟨_, d, -, hcall⟩ | ⟨reg, -, hr⟩ := call_cases e c
  · rw [hcall]
  · rw [hcall]
  · exact (register_eq_ok hr).1

theorem config_calls (config : Config) (history : List Call) :
    (calls config history).config = config :=
  List.foldlRecOn (motive := fun e => e.config = config) history call rfl fun e he c _ =>
    (config_call e c).trans he

theorem settled_call (he : e.registry.Settled) {c : Call} (hc : c.New) :
    (e.call c).registry.Settled := by
  obtain hcall | ⟨_, d, -, hcall⟩ | ⟨reg, rfl, hr⟩ := call_cases e c
  · rwa [hcall]
  · rw [hcall]
    exact he.of_stage (he.stage.hold d).2
  · exact he.register hc (registry_of_register hr)

theorem settled_calls (hnew : ∀ c ∈ history, c.New) :
    (calls config history).registry.Settled :=
  List.foldlRecOn (motive := fun e => e.registry.Settled) history call
    Registry.sound_builtins.settled fun _ he c hc => settled_call he (hnew c hc)

/-- **The serializer of a type is found iff nothing that the type reaches is broken or depends
    on itself**, as deep as that may be and whatever was called before.  What is found, or the
    error, is the same after all histories in which the same was registered; and no type is left
    marked. -/
theorem serializer_by_dependencies (hnew : ∀ c ∈ history, c.New) (t : ObjectType) :
    ((∃ s, (calls config history).registry.serializer t = .ok s) ↔
      ((calls config history).registry.find? t).isSome ∧
      ∀ u, (calls config history).registry.Reaches t u →
        ¬(calls config history).registry.Broken u ∧ ¬(calls config history).registry.Cyclic u) ∧
    (∀ depth, (calls config history).registry.registrations.length < depth →
      resultOf (Registry.demandWithin depth t) (calls config history).registry =
        (calls config history).registry.serializer t) ∧
    (∀ history', (∀ c ∈ history', c.New) →
      ((calls config history).registry.registrations.map (·.said)).Perm
        ((calls config history').registry.registrations.map (·.said)) →
      (calls config history').registry.serializer t =
        (calls config history).registry.serializer t) ∧
    ∀ u reg, (calls config history).registry.find? u = some reg → reg.building = false := by
  have hsettled : (calls config history).registry.Settled := settled_calls hnew
  generalize calls config history = e at hsettled
  have hserializer := (hsettled.stage.demand t).2
  refine ⟨by rw [hserializer, Registry.isOk_outcome_iff], fun depth hdepth => ?_,
    fun history' hnew' hperm => ?_, fun u reg hreg => ?_⟩
  · obtain ⟨r', -, hr'⟩ := Registry.follows_demandWithin (t := t)
      (Registry.room_start.of_le hdepth) (by simp) _ hsettled.stage
    rw [hserializer, ← Registry.outcome_of_le Registry.room_start hdepth]
    unfold resultOf
    rw [hr']
    cases e.registry.outcome depth [] t <;> rfl
  · rw [hsettled.serializer_of_perm (settled_calls hnew') hperm]
  · simpa using hsettled.stage.marked u reg hreg

/-- The registration of a type of containers whose keys are of another type. -/
def keyedBy (type : Nat) (id : Nat) (key : ObjectType) : Registration :=
  { Registration.ofContainer (.named type) id with
      recipe := .binding { key := { type := some key } } }

/-- Two types whose keys are of each other, the first asked for when there is only one of them,
    and a third whose keys are numbers. -/
def tangled : List Call :=
  [.register (keyedBy 0 33 (.container (.named 1))), .ask (.container (.named 0)),
    .register (keyedBy 1 34 (.container (.named 0))), .ask (.container (.named 1)),
    .register (keyedBy 2 35 (.leaf .i32)), .ask (.container (.named 2))]

theorem serializer_by_dependencies_tangled :
    (∀ c ∈ tangled, c.New) ∧
      (¬∃ s, (calls {} tangled).registry.serializer (.container (.named 0)) = .ok s) ∧
      (calls {} tangled.reverse).registry.serializer (.container (.named 0)) =
        (calls {} tangled).registry.serializer (.container (.named 0)) := by
  have hnew : ∀ c ∈ tangled, c.New := by
    simp only [tangled, List.forall_mem_cons]
    exact ⟨⟨rfl, rfl⟩, trivial, ⟨rfl, rfl⟩, trivial, ⟨rfl, rfl⟩, trivial, by simp⟩
  obtain ⟨hiff, -, hany, -⟩ :=
    @serializer_by_dependencies {} tangled hnew (.container (.named 0))
  refine ⟨hnew, fun hok => ?_, hany tangled.reverse (fun c hc => hnew c (List.mem_reverse.1 hc)) ?_⟩
  · have hfine := (hiff.1 hok).2 (.container (.named 0)) .refl
    exact hfine.2 (.head (b := .container (.named 1)) ⟨_, _, rfl, rfl, Or.inl ⟨rfl, rfl⟩⟩
      (.single ⟨_, _, rfl, rfl, Or.inl ⟨rfl, rfl⟩⟩))
  · let three := [keyedBy 0 33 (.container (.named 1)), keyedBy 1 34 (.container (.named 0)),
      keyedBy 2 35 (.leaf .i32)].map (·.said)
    have hone : (calls {} tangled).registry.registrations.map (·.said) =
        Registry.builtins.registrations.map (·.said) ++ three := rfl
    have hother : (calls {} tangled.reverse).registry.registrations.map (·.said) =
        Registry.builtins.registrations.map (·.said) ++ three.reverse := rfl
    rw [hone, hother]
    exact three.reverse_perm.symm.append_left _

end Engine

end GraphWire

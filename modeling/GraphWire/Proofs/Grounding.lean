/-
  Parameters belong to the declaration around them.

  What is declared with parameters is written like what is declared with the types that they
  stand for.

  * `Writing.endsAlike_declared_ground`: so it is under any frames, with all that parameters
    stand for there;
  * `Writing.declared_ground`: they stand for what the caller has declared, unless nobody has
    declared anything here and they stray into a frame that was pushed for something else
    (`Scope.Strays`);
  * `Writing.not_endsAlike_instantiate`: not for a type with its arguments, not for what the
    caller has declared if they stand further in, and where they stray not for nothing.
-/
import GraphWire.Proofs.Surroundings

namespace GraphWire

namespace Writing

variable {e : Engine} {h : Heap}

/-- What is declared with parameters is written like what is declared with the types that they
    stand for. -/
theorem endsAlike_declared_ground {s : WriteState} (hs : s.scope.Entered) (ty : Declared)
    (v : Value) : EndsAlike .strict (fun _ => Eq) (declared e h ty v s)
      (declared e h (ty.ground (Frames.lookUp s.scope.frames.stack)) v s) := by
  have hn : NestedPairs (.empty s.out.native) (s.scope.pushed ty)
      (s.scope.pushed (ty.ground (Frames.lookUp s.scope.frames.stack)))
      (data e h (e.config.maxDepth - s.scope.depth)) :=
    nestedPairs_data (Scope.Grounds.serves _) _ (hs.pushed_deeper ty)
      ((Scope.Grounds.refl _).pushed_ground ty)
  exact (pairs_declaredVia hs hs (by rw [Declared.type?_ground]) v hn).post (fun _ _ _ => Pair.eq)
    s s ⟨Output.after_empty.2 ⟨rfl, rfl⟩, rfl, rfl, rfl⟩

/-- **A parameter belongs to the declaration around it.**  What is declared with parameters is
    written like what is declared with the types, without arguments, that they stand for: those
    among its own arguments for what the caller has declared there, or for nothing if the caller
    has not, unless they stray; those further in for what stands there among the arguments around
    them. -/
theorem declared_ground {s : WriteState} (hs : s.scope.Entered)
    (hargs : ∀ i, .param i ∉ s.scope.args) (ty : Declared)
    (hstray : ∀ i, .param i ∈ ty.args → ¬s.scope.Strays i) (v : Value) :
    EndsAlike .strict (fun _ => Eq) (declared e h ty v s)
      (declared e h (ty.ground (Declared.within s.scope.args Declared.type?)) v s) := by
  have hlook : ∀ arg ∈ ty.args, Frames.lookUp s.scope.frames.stack arg =
      Declared.within s.scope.args Declared.type? arg := by
    intro arg harg
    cases arg with
    | concrete type bs => exact Frames.lookUp_concrete _ type bs
    | unknown => exact Frames.lookUp_unknown _
    | param i => exact Scope.lookUp_param hargs (hstray i harg)
  rw [← Declared.ground_congr hlook]
  exact endsAlike_declared_ground hs ty v

/-! ## Arguments in full -/

/-- What was written by a run that succeeded. -/
def bytesOf : EStateM.Result Error WriteState Unit → Option Bytes
  | .ok _ s => some s.out.bytes
  | .error _ _ => none

theorem bytesOf_eq {r r' : EStateM.Result Error WriteState Unit}
    (hr : EndsAlike .strict (fun _ => Eq) r r') : bytesOf r = bytesOf r' := by
  cases hr with
  | ok a hst => rw [hst]
  | error he => rfl
  | early he => exact he.elim

/-- A writing for what runs under a declaration with these arguments. -/
def under (args : List Declared) : WriteState := ⟨.empty false, .empty, ⟨⟨[⟨0, args⟩]⟩, 1⟩⟩

/-- A writing for what runs one level further down, where nothing is declared. -/
def beneath (args : List Declared) : WriteState := inScope Scope.deeper (under args)

theorem entered_under (args : List Declared) : (under args).scope.Entered := by
  intro frame hf
  rw [List.mem_singleton.1 hf]
  exact Nat.one_pos

/-- A container that has another one as its key. -/
def containerKey : Heap :=
  let h := (Heap.empty.alloc (.container (.empty .linked))).2
  let h := (h.alloc (.container (.hash ⟨[(some 2, some 3)]⟩))).2
  let h := (h.alloc (.leaf (.string "x"))).2
  let h := (h.alloc (.leaf (.i32 1))).2
  ((h.alloc (.leaf (.string "p"))).2.insert 0 (some 1) (some 4)).2

/-- A container that maps a text to a number. -/
def textKey : Heap :=
  ((containerKey.alloc (.container (.empty .linked))).2.insert 5 (some 2) (some 3)).2

/-- What is declared for a string. -/
def text : Declared := .concrete (.leaf .string) []

/-- What is declared for a hash container. -/
def hashOf (key value : Declared) : Declared := .concrete (.container .hash) [key, value]

/-- What is declared for a linked container. -/
def linkedOf (key value : Declared) : Declared := .concrete (.container .linked) [key, value]

theorem declared_ground_containerKey :
    (linkedOf (hashOf (.param 1) .unknown) (.param 0)).ground
        (Declared.within [text] Declared.type?) = linkedOf (hashOf text .unknown) text ∧
    EndsAlike .strict (fun _ => Eq)
      (declared {} containerKey (linkedOf (hashOf (.param 1) .unknown) (.param 0)) (some 0)
        (under [text]))
      (declared {} containerKey (linkedOf (hashOf text .unknown) text) (some 0) (under [text])) ∧
    bytesOf (declared {} containerKey (linkedOf (hashOf text .unknown) text) (some 0)
      (under [text])) = some [11, 1, 10, 1, 255, 1, 120, 5, 2, 255, 1, 112] := by
  have hargs : ∀ i, .param i ∉ (under [text]).scope.args := fun i hi => by
    have hi : .param i ∈ [text] := hi
    simp [text] at hi
  have hstray : ∀ i, ¬(under [text]).scope.Strays i := by
    rintro i ⟨hnext, -⟩
    cases hnext
  exact ⟨rfl, declared_ground (entered_under _) hargs _ (fun i _ => hstray i) _, by decide +kernel⟩

/-- A parameter stands for a type without its arguments, one further in not for what the caller
    has declared, and one that strays for what was declared elsewhere. -/
theorem not_endsAlike_instantiate :
    ¬EndsAlike .strict (fun _ => Eq)
      (declared {} containerKey (linkedOf (.param 0) text) (some 0)
        (under [hashOf text (.concrete (.leaf .i32) [])]))
      (declared {} containerKey
        ((linkedOf (.param 0) text).instantiate [hashOf text (.concrete (.leaf .i32) [])]) (some 0)
        (under [hashOf text (.concrete (.leaf .i32) [])])) ∧
    ¬EndsAlike .strict (fun _ => Eq)
      (declared {} containerKey (linkedOf (hashOf (.param 0) .unknown) .unknown) (some 0)
        (under [text]))
      (declared {} containerKey
        ((linkedOf (hashOf (.param 0) .unknown) .unknown).instantiate [text]) (some 0)
        (under [text])) ∧
    declaredArgs (beneath [text]) = none ∧
    ¬EndsAlike .strict (fun _ => Eq)
      (declared {} textKey (linkedOf (.param 0) .unknown) (some 5) (beneath [text]))
      (declared {} textKey ((linkedOf (.param 0) .unknown).instantiate []) (some 5)
        (beneath [text])) :=
  ⟨fun hr => absurd (bytesOf_eq hr) (by decide +kernel),
    fun hr => absurd (bytesOf_eq hr) (by decide +kernel), rfl,
    fun hr => absurd (bytesOf_eq hr) (by decide +kernel)⟩

end Writing

end GraphWire

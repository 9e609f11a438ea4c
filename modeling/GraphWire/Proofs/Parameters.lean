/-
  What parameters stand for.

  A parameter among the arguments of a declaration is bound by the declaration around it, and
  stands for a type without arguments (`Declared.within`).  A declaration in which each one is
  replaced by what it stands for (`Declared.ground`) is under any frames what it is under none.

  * `Frames.Grounds` relates the frames that are there when some declarations are ground to
    those that are there when they are not;
  * `Frames.Grounds.lookUp`: every declaration stands for the same type under both;
  * `Scope.Grounds.pushed_ground`, `Scope.Grounds.serves`: and they stay related when a
    declaration is entered, with its parameters or without, or the keys of a container are.
-/
import GraphWire.Proofs.Pairing

namespace GraphWire

/-! ## Ground declarations -/

namespace Declared

/-- The type that a declaration stands for among the arguments of another, whose own arguments
    are looked up outside. -/
def within (args : List Declared) (outside : Declared → Option ObjectType) :
    Declared → Option ObjectType
  | concrete type _ => some type
  | unknown => none
  | param i => args[i]?.bind outside

/-- The declaration of a type without arguments, if it is known. -/
def ofType? : Option ObjectType → Declared
  | some type => concrete type []
  | none => unknown

mutual

/-- A declaration whose arguments have no parameters, given what those that it has stand for. -/
def ground (look : Declared → Option ObjectType) : Declared → Declared
  | concrete type args => concrete type (groundAll look args args)
  | param i => param i
  | unknown => unknown

/-- So for those among the arguments of a declaration. -/
def groundAll (look : Declared → Option ObjectType) (around : List Declared) :
    List Declared → List Declared
  | [] => []
  | param i :: args => ofType? (look (param i)) :: groundAll look around args
  | concrete type bs :: args =>
    ground (within around look) (concrete type bs) :: groundAll look around args
  | unknown :: args => unknown :: groundAll look around args

end

/-- What becomes of one argument. -/
def groundArg (look : Declared → Option ObjectType) (around : List Declared) :
    Declared → Declared
  | param i => ofType? (look (param i))
  | ty => ground (within around look) ty

mutual

/-- A declaration in which parameters, however far in, are replaced by these arguments. -/
def instantiate (args : List Declared) : Declared → Declared
  | concrete type bs => concrete type (instantiateAll args bs)
  | param i => args[i]?.getD unknown
  | unknown => unknown

/-- So for those among the arguments of a declaration. -/
def instantiateAll (args : List Declared) : List Declared → List Declared
  | [] => []
  | ty :: tys => instantiate args ty :: instantiateAll args tys

end

variable {look : Declared → Option ObjectType} {around : List Declared}

theorem groundAll_eq_map (args : List Declared) :
    groundAll look around args = args.map (groundArg look around) := by
  induction args with
  | nil => rw [groundAll, List.map_nil]
  | cons ty args ih => cases ty <;> rw [groundAll, ih, List.map_cons] <;> simp [groundArg, ground]

theorem getElem?_groundAll (args : List Declared) (i : Nat) :
    (groundAll look around args)[i]? = args[i]?.map (groundArg look around) := by
  rw [groundAll_eq_map, List.getElem?_map]

/-- What is looked up of the arguments is all that matters. -/
theorem ground_congr {look' : Declared → Option ObjectType} {ty : Declared}
    (h : ∀ arg ∈ ty.args, look arg = look' arg) : ty.ground look = ty.ground look' := by
  cases ty with
  | unknown => rfl
  | param i => rfl
  | concrete type args =>
    have hwithin : within args look = within args look' := by
      funext arg
      cases arg with
      | concrete type bs => rfl
      | unknown => rfl
      | param i =>
        simp only [within]
        cases hi : args[i]? with
        | none => rfl
        | some arg => exact h arg (List.mem_of_getElem? hi)
    simp only [ground, groundAll_eq_map]
    congr 1
    refine List.map_congr_left fun arg harg => ?_
    cases arg with
    | concrete type bs => rw [groundArg, groundArg, hwithin] <;> simp
    | unknown => rfl
    | param i => simp only [groundArg, h _ harg]

theorem groundAll_eq_nil {args : List Declared} : groundAll look around args = [] ↔ args = [] := by
  rw [groundAll_eq_map, List.map_eq_nil_iff]

theorem type?_ground (ty : Declared) : (ty.ground look).type? = ty.type? := by
  cases ty <;> rfl

theorem args_ground (ty : Declared) : (ty.ground look).args = groundAll look ty.args ty.args := by
  cases ty <;> simp [ground, groundAll, args]

end Declared

/-! ## Frames -/

namespace Frames

open Declared

theorem lookUp_cons (frame : Frame) (below : List Frame) :
    lookUp (frame :: below) = within frame.args (lookUp below) := by
  funext ty
  cases ty with
  | concrete type args => rfl
  | unknown => rfl
  | param i =>
    simp only [lookUp, within]
    cases frame.args[i]? <;> rfl

/-- Whether some frames of one stack are ground in the other, and the rest is the same. -/
inductive Grounds : List Frame → List Frame → Prop
  | nil : Grounds [] []
  | same {below below' : List Frame} (frame : Frame) : Grounds below below' →
      Grounds (frame :: below) (frame :: below')
  | ground {below below' : List Frame} (depth : Nat) (args : List Declared) :
      Grounds below below' →
      Grounds (⟨depth, args⟩ :: below) (⟨depth, groundAll (lookUp below) args args⟩ :: below')

namespace Grounds

variable {stack stack' : List Frame}

theorem refl (stack : List Frame) : Grounds stack stack := by
  induction stack with
  | nil => exact .nil
  | cons frame below ih => exact .same frame ih

/-- The tags are the same. -/
theorem depths (h : Grounds stack stack') : stack.map Frame.depth = stack'.map Frame.depth := by
  induction h with
  | nil => rfl
  | same frame _ ih => rw [List.map_cons, List.map_cons, ih]
  | ground depth args _ ih => rw [List.map_cons, List.map_cons, ih]

end Grounds

@[simp] theorem lookUp_concrete (stack : List Frame) (type : ObjectType) (args : List Declared) :
    lookUp stack (concrete type args) = some type := by
  cases stack <;> rfl

@[simp] theorem lookUp_unknown (stack : List Frame) : lookUp stack unknown = none := by
  cases stack <;> rfl

/-- What an argument stands for is what it is replaced by. -/
theorem lookUp_groundArg (below : List Frame) (around : List Declared) (stack : List Frame)
    (ty : Declared) : lookUp stack (groundArg (lookUp below) around ty) = lookUp below ty := by
  cases ty with
  | concrete type args => simp [groundArg, ground]
  | unknown => simp [groundArg, ground]
  | param i => cases h : lookUp below (param i) <;> simp [groundArg, ofType?, h]

/-- **Every declaration stands for the same type** under frames that are ground and under those
    that they come from. -/
theorem Grounds.lookUp {stack stack' : List Frame} (h : Grounds stack stack') :
    Frames.lookUp stack' = Frames.lookUp stack := by
  induction h with
  | nil => rfl
  | same frame _ ih => rw [lookUp_cons, lookUp_cons, ih]
  | @ground below below' depth args _ ih =>
    rw [lookUp_cons, lookUp_cons, ih]
    funext ty
    cases ty with
    | concrete type args => rfl
    | unknown => rfl
    | param i =>
      simp only [within, getElem?_groundAll]
      cases args[i]? with
      | none => rfl
      | some ty => exact lookUp_groundArg below args below ty

end Frames

/-! ## Scopes -/

namespace Scope

variable {sc sc' : Scope}

/-- Whether a scope is another in which some frames are ground. -/
structure Grounds (sc sc' : Scope) : Prop where
  depth : sc'.depth = sc.depth
  stack : Frames.Grounds sc.frames.stack sc'.frames.stack

theorem next_of_cons {frame : Frame} {below : List Frame} (h : sc.frames.stack = frame :: below) :
    sc.frames.next sc.depth = if frame.depth + 1 = sc.depth then some frame.args else none := by
  unfold Frames.next Frames.top?
  rw [h]
  by_cases ht : frame.depth + 1 = sc.depth <;> simp [Option.filter, ht]

theorem args_of_cons {frame : Frame} {below : List Frame} (h : sc.frames.stack = frame :: below) :
    sc.args = if frame.depth + 1 = sc.depth then frame.args else [] := by
  unfold args
  rw [next_of_cons h]
  split <;> rfl

theorem args_of_nil (h : sc.frames.stack = []) : sc.args = [] := by
  unfold args Frames.next Frames.top?
  rw [h]
  rfl

/-- Whether a parameter that nobody has declared for what runs here stands for something in the
    frames that were pushed for something else. -/
def Strays (sc : Scope) (i : Nat) : Prop :=
  sc.frames.next sc.depth = none ∧ (Frames.lookUp sc.frames.stack (.param i)).isSome

/-- A parameter that does not stray stands for what the caller has declared. -/
theorem lookUp_param (hargs : ∀ i, .param i ∉ sc.args) {i : Nat} (hi : ¬sc.Strays i) :
    Frames.lookUp sc.frames.stack (.param i) = sc.args[i]?.bind Declared.type? := by
  cases hst : sc.frames.stack with
  | nil =>
    rw [args_of_nil hst]
    rfl
  | cons frame below =>
    have hnext := next_of_cons hst
    have hhere := args_of_cons hst
    by_cases htag : frame.depth + 1 = sc.depth
    · rw [if_pos htag] at hhere
      rw [hhere, Frames.lookUp_cons]
      simp only [Declared.within]
      cases hty : frame.args[i]? with
      | none => rfl
      | some ty =>
        cases ty with
        | concrete type args => exact Frames.lookUp_concrete below type args
        | unknown => exact Frames.lookUp_unknown below
        | param j => exact absurd (hhere ▸ List.mem_of_getElem? hty) (hargs j)
    · rw [if_neg htag] at hnext hhere
      rw [hhere, ← hst]
      exact Option.not_isSome_iff_eq_none.1 fun hsome => hi ⟨hnext, hsome⟩

theorem stack_pushed {ty : Declared} (h : ty.args ≠ []) :
    (sc.pushed ty).frames.stack = ⟨sc.depth, ty.args⟩ :: sc.frames.stack := by
  have hf : Frames.hasFrame ty = true := by simp [Frames.hasFrame, h]
  simp only [Scope.pushed, Frames.push, if_pos hf]

namespace Grounds

theorem refl (sc : Scope) : sc.Grounds sc := ⟨rfl, .refl _⟩

theorem entered (h : sc.Grounds sc') (hs : sc.Entered) : sc'.Entered := by
  intro frame hf
  have hdepth : frame.depth ∈ sc.frames.stack.map Frame.depth :=
    h.stack.depths ▸ List.mem_map_of_mem hf
  obtain ⟨frame₀, hf₀, hd⟩ := List.mem_map.1 hdepth
  rw [h.depth, ← hd]
  exact hs frame₀ hf₀

theorem deeper (h : sc.Grounds sc') : sc.deeper.Grounds sc'.deeper :=
  ⟨congrArg (· + 1) h.depth, h.stack⟩

/-- What is declared in both alike is entered alike. -/
theorem pushed (h : sc.Grounds sc') (ty : Declared) : (sc.pushed ty).Grounds (sc'.pushed ty) := by
  by_cases hargs : ty.args = []
  · rwa [pushed_of_args_eq_nil hargs, pushed_of_args_eq_nil hargs]
  · refine ⟨h.depth, ?_⟩
    rw [stack_pushed hargs, stack_pushed hargs, h.depth]
    exact .same _ h.stack

/-- So is what is declared with parameters in the one and ground in the other. -/
theorem pushed_ground (h : sc.Grounds sc') (ty : Declared) :
    (sc.pushed ty).Grounds (sc'.pushed (ty.ground (Frames.lookUp sc.frames.stack))) := by
  by_cases hargs : ty.args = []
  · rwa [pushed_of_args_eq_nil hargs,
      pushed_of_args_eq_nil (by rw [Declared.args_ground, hargs]; rfl)]
  · refine ⟨h.depth, ?_⟩
    rw [stack_pushed hargs, stack_pushed (by rwa [Declared.args_ground, ne_eq,
      Declared.groundAll_eq_nil]), h.depth, Declared.args_ground]
    exact .ground _ _ h.stack

/-- The arguments of what runs here are the same, or ground in the one scope. -/
theorem args (h : sc.Grounds sc') : sc'.args = sc.args ∨ ∃ d below,
    sc.frames.stack = ⟨d, sc.args⟩ :: below ∧
      sc'.args = Declared.groundAll (Frames.lookUp below) sc.args sc.args := by
  obtain ⟨hdepth, hstack⟩ := h
  generalize hst : sc.frames.stack = stack, hst' : sc'.frames.stack = stack' at hstack
  cases hstack with
  | nil => exact Or.inl ((args_of_nil hst').trans (args_of_nil hst).symm)
  | same frame hbelow =>
    rw [args_of_cons hst, args_of_cons hst', hdepth]
    exact Or.inl rfl
  | @ground below below' d args hbelow =>
    rw [args_of_cons hst, args_of_cons hst', hdepth]
    by_cases ht : d + 1 = sc.depth
    · exact Or.inr ⟨d, below, by simp [ht], by simp [ht]⟩
    · exact Or.inl (by simp [ht])

/-- The keys of what runs here are entered alike. -/
theorem pushed_keyType (h : sc.Grounds sc') :
    (sc.pushed sc.keyType).Grounds (sc'.pushed sc'.keyType) := by
  obtain hargs | ⟨d, below, hstack, hargs⟩ := h.args
  · unfold keyType
    rw [hargs]
    exact h.pushed _
  · unfold keyType
    rw [hargs, Declared.getElem?_groundAll]
    cases hkey : sc.args[0]? with
    | none => exact h.pushed _
    | some ty =>
      cases ty with
      | unknown =>
        simp only [Option.map_some, Option.getD_some, Declared.groundArg, Declared.ground]
        exact h.pushed _
      | param i =>
        -- a parameter has no frame, and neither has the type that it stands for
        have hbare : (Declared.ofType? (Frames.lookUp below (.param i))).args = [] := by
          cases Frames.lookUp below (.param i) <;> rfl
        simp only [Option.map_some, Option.getD_some, Declared.groundArg]
        rw [pushed_of_args_eq_nil hbare, pushed_of_args_eq_nil rfl]
        exact h
      | concrete type bs =>
        have hground := h.pushed_ground (.concrete type bs)
        rw [hstack, Frames.lookUp_cons] at hground
        simp only [Option.map_some, Option.getD_some, Declared.groundArg]
        exact hground

theorem resolve (h : sc.Grounds sc') : sc'.frames.resolve = sc.frames.resolve := by
  funext ty
  unfold Frames.resolve
  have hstack := h.stack
  generalize sc.frames.stack = stack, sc'.frames.stack = stack' at hstack
  cases hstack with
  | nil => rfl
  | same _ hbelow => exact congrFun hbelow.lookUp ty
  | ground _ _ hbelow => exact congrFun hbelow.lookUp ty

/-- The sides of what runs here stand for the same types. -/
theorem resolve_args (h : sc.Grounds sc') (k : Nat) :
    sc'.args[k]?.bind sc'.frames.resolve = sc.args[k]?.bind sc.frames.resolve := by
  rw [h.resolve]
  obtain hargs | ⟨d, below, hstack, hargs⟩ := h.args
  · rw [hargs]
  · have hresolve : sc.frames.resolve = Frames.lookUp below := by
      funext ty
      unfold Frames.resolve
      rw [hstack]
    rw [hargs, Declared.getElem?_groundAll, hresolve]
    cases sc.args[k]? with
    | none => rfl
    | some ty => exact Frames.lookUp_groundArg below sc.args below ty

/-- Both sides of what runs here are encoded alike. -/
theorem serves (r : Registry) : Scope.Serves r Grounds where
  depth h := h.depth
  entered h := h.entered
  slots h := resolveSlots_congr fun k => by rw [h.resolve_args]
  deeper h := h.deeper
  pushed h := h.pushed
  keys h := h.pushed_keyType

end Grounds

end Scope

end GraphWire

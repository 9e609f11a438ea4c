/-
  Frames: the arguments of the declarations around a value.

  Whoever goes down into a declared value pushes a frame with the arguments of
  its type.  A frame is tagged with the depth it was pushed at; whatever runs at
  depth `d` sees, and pops, the top frame only if it was pushed at `d - 1`, so
  that it never takes a frame that was pushed for something else.

  * `Frames.next` are the arguments meant for what runs at a depth;
  * `Frames.resolve` follows a parameter through the frames below, one frame
    further down for each parameter on the way.
-/
import GraphWire.Generics.Declared

namespace GraphWire

/-- The arguments of a declaration and the depth it was met at. -/
structure Frame where
  depth : Nat
  args : List Declared
  deriving DecidableEq, Repr

/-- The frames pushed so far, the last first. -/
structure Frames where
  stack : List Frame
  deriving DecidableEq, Repr

namespace Frames

/-- No frames. -/
def empty : Frames := ⟨[]⟩

/-- How many frames there are. -/
def height (f : Frames) : Nat := f.stack.length

/-- Whether a declaration has arguments that make a frame. -/
def hasFrame (ty : Declared) : Bool := !ty.args.isEmpty

/-- Pushes the arguments of a declaration, if it has any. -/
def push (f : Frames) (ty : Declared) (depth : Nat) : Frames :=
  if hasFrame ty then ⟨⟨depth, ty.args⟩ :: f.stack⟩ else f

/-- The top frame, if it was pushed for what runs at the depth. -/
def top? (f : Frames) (depth : Nat) : Option Frame :=
  f.stack.head?.filter fun frame => frame.depth + 1 == depth

/-- Pops the top frame if it was pushed for what runs at the depth. -/
def pop (f : Frames) (depth : Nat) : Frames :=
  match f.top? depth with
  | some _ => ⟨f.stack.tail⟩
  | none => f

/-- Drops the frames above a height. -/
def truncate (f : Frames) (height : Nat) : Frames := ⟨f.stack.drop (f.height - height)⟩

/-- The arguments meant for what runs at the depth. -/
def next (f : Frames) (depth : Nat) : Option (List Declared) := (f.top? depth).map Frame.args

/-- The type that a declaration stands for, where parameters are looked up in
    the first of the frames, and those found there in the next. -/
def lookUp : List Frame → Declared → Option ObjectType
  | _, .concrete type _ => some type
  | _, .unknown => none
  | [], .param _ => none
  | frame :: below, .param i =>
    match frame.args[i]? with
    | some ty => lookUp below ty
    | none => none

/-- The type that an argument of the top frame stands for. -/
def resolve (f : Frames) (ty : Declared) : Option ObjectType :=
  match f.stack with
  | [] => none
  | _ :: below => lookUp below ty

@[simp] theorem stack_empty : empty.stack = [] := rfl

@[simp] theorem truncate_height (f : Frames) : f.truncate f.height = f := by simp [truncate]

/-- A frame that was pushed is dropped again by going back to the height before. -/
@[simp] theorem truncate_push (f : Frames) (ty : Declared) (depth : Nat) :
    (f.push ty depth).truncate f.height = f := by
  unfold push
  split <;> simp [truncate, height]

/-- **What is pushed at a depth is meant for the next.** -/
theorem next_push {f : Frames} {ty : Declared} (depth : Nat) (h : hasFrame ty) :
    (f.push ty depth).next (depth + 1) = some ty.args := by
  rw [push, if_pos h]
  simp [next, top?, Option.filter]

end Frames

end GraphWire

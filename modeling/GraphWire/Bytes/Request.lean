/-
  Requests: what an input can be asked for.

  * `Input.answer` is what comes of one request;
  * `Input.answers` are the answers to requests that are made in turn, until one
    of them fails;
  * `Input.after` is the input as any operations leave it, those that fail
    included.
-/
import GraphWire.Bytes.Input
import GraphWire.Computation

namespace GraphWire

namespace Input

/-! ## Requests -/

/-- What is asked for. -/
inductive Request where
  | item (type : ItemType)
  | bytes (n : Nat)
  /-- To fill a target with what is next. -/
  | into (target : Target)
  | skip (n : Nat)
  | atEnd

/-- What is answered. -/
inductive Answer where
  | item (i : Item)
  | bytes (bs : Bytes)
  | filled (target : Target)
  | skipped
  | atEnd (ended : Bool)

/-- The result of a bulk operation, which tells what it brings, what failed and how
    the input is left. -/
def resultOfBulk {α : Type} : α × Option Error × Input → EStateM.Result Error Input α
  | (a, none, i) => .ok a i
  | (_, some e, i) => .error e i

/-- Fills a target with what is next. -/
def into (target : Target) : Scan Target := fun i => resultOfBulk (fillTarget target i)

/-- Answers a request. -/
def answer : Request → Scan Answer
  | .item type => .item <$> item type
  | .bytes n => .bytes <$> bytes n
  | .into target => .filled <$> into target
  | .skip n => (fun _ => .skipped) <$> skip n
  | .atEnd => .atEnd <$> atEnd

/-- The answers to requests made in turn, each with the number of bytes consumed after
    it, and the error of the first that fails; none is made after it. -/
def answers : List Request → Input → List (Answer × Nat) × Option Error
  | [], _ => ([], none)
  | request :: requests, i =>
    match answer request i with
    | .error e _ => ([], some e)
    | .ok a i =>
      let (more, failure) := answers requests i
      ((a, i.total) :: more, failure)

/-! ## Operations -/

/-- What can be done with an input other than to give it other bytes. -/
inductive Operation where
  | request (r : Request)
  | require (n : Nat)
  | optional (n : Nat)
  | canReadVar (t : VarNumber)
  | setLayout (native : Bool)

/-- Carries out an operation. -/
def perform : Operation → Scan Unit
  | .request r => discard (answer r)
  | .require n => discard (require n)
  | .optional n => discard (optional n)
  | .canReadVar t => discard ((fun i => i.canReadVar t) <$> get)
  | .setLayout native => modify fun i => i.withLayout native

/-- The input as the operations leave it, one after the other, however each of them
    ends. -/
def after (operations : List Operation) (i : Input) : Input :=
  operations.foldl (fun i o => stateAfter (perform o) i) i

/-- What an input is made of. -/
inductive Origin where
  | bytes (bs : Bytes)
  | source (s : Source) (capacity : Nat)

/-- The input as it is made. -/
def Origin.start : Origin → Input
  | .bytes bs => ofBytes bs
  | .source s capacity => ofSource s capacity

/-- All bytes that an input made so can ever bring. -/
def Origin.stream : Origin → Bytes
  | .bytes bs => bs
  | .source s _ => s.data

/-- The bytes that the source has not handed out so far. -/
def withheld (i : Input) : Bytes := i.source.elim [] Source.data

end Input

end GraphWire

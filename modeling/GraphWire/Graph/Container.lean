/-
  Containers: keys with what they map to, each key once.

  The unordered type keeps its entries in a `HashTable`, the ordered types keep
  them in a `LinkedTable`.  Seen as a list of entries (`Container.entries`), all
  of them behave alike: `Container.find?_eq`, `Container.entries_insert` and
  `Container.fst_insert`.
-/
import GraphWire.Graph.Table
import GraphWire.Graph.Types

namespace GraphWire

/-- A container of one of the types. -/
inductive Container where
  | hash (table : HashTable Value)
  | linked (table : LinkedTable)
  | named (tag : Nat) (table : LinkedTable)
  deriving DecidableEq, Repr

namespace Container

/-- The type of a container. -/
def type : Container → ContainerType
  | hash _ => .hash
  | linked _ => .linked
  | named tag _ => .named tag

/-- The container of a type that has no entries. -/
def empty : ContainerType → Container
  | .hash => hash .empty
  | .linked => linked .empty
  | .named tag => named tag .empty

/-- The entries, in the order in which the container is walked. -/
def entries : Container → List Entry
  | hash t => t.slots
  | linked t | named _ t => t.order

/-- What a key that passes the test maps to. -/
def find? : Container → (test : Value → Bool) → Option Value
  | hash t, test => t.find? test
  | linked t, test | named _ t, test => t.find? test

/-- Maps a key to a value, where the test says which stored keys are the same;
    what the key mapped to before. -/
def insert (c : Container) (test : Value → Bool) (key value : Value) :
    Option Value × Container :=
  match c with
  | hash t => let (old, t) := t.insert test key value; (old, hash t)
  | linked t => let (old, t) := t.insert test key value; (old, linked t)
  | named tag t => let (old, t) := t.insert test key value; (old, named tag t)

/-- A short text on a container, given what the types are called.  It shows no
    entries, since they may lead back to the container. -/
def describe (name : ContainerType → String) (c : Container) : String :=
  let plain (type : ContainerType) := s!"{name type} \x7b len: {c.entries.length} \x7d"
  match c.type with
  | .named tag => s!"{name (.named tag)}({plain .linked})"
  | type => plain type

@[simp] theorem type_empty (t : ContainerType) : (empty t).type = t := by cases t <;> rfl

@[simp] theorem entries_empty (t : ContainerType) : (empty t).entries = [] := by cases t <;> rfl

@[simp] theorem type_insert (c : Container) (test : Value → Bool) (key value : Value) :
    (c.insert test key value).2.type = c.type := by cases c <;> rfl

/-- **A container finds what its list of entries holds.** -/
theorem find?_eq (c : Container) (test : Value → Bool) :
    c.find? test = Entries.find? test c.entries := by
  cases c with
  | hash t => rfl
  | linked t | named _ t => exact t.find?_eq test

/-- **An insertion changes the entries as it changes a list of pairs.** -/
theorem entries_insert (c : Container) (test : Value → Bool) (key value : Value) :
    (c.insert test key value).2.entries = Entries.insert test key value c.entries := by
  cases c with
  | hash t => rfl
  | linked t | named _ t => exact t.order_insert test key value

/-- **An insertion returns what the key mapped to before.** -/
theorem fst_insert (c : Container) (test : Value → Bool) (key value : Value) :
    (c.insert test key value).1 = c.find? test := by
  cases c with
  | hash t => rfl
  | linked t | named _ t => exact t.fst_insert test key value

end Container

end GraphWire

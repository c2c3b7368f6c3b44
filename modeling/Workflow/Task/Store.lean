import Workflow.Task.Catalog

/-!
# Task stores

A store keeps the tasks that merges make. Appending is idempotent by id: the first task of an id
stays. A store announces the id of every task that it takes in; receivers read the announcements
made since they subscribed.
-/

namespace Workflow

inductive StoreError
  | io (path reason : String)
  | corrupt (reason : String)
  deriving DecidableEq, Inhabited, Repr

def StoreError.code : StoreError → String
  | io _ _ => "Io"
  | corrupt _ => "Corrupt"

def StoreError.message : StoreError → String
  | io path reason => "Could not access task store at '" ++ path ++ "': " ++ reason
  | corrupt reason => "Task store contents are not valid: " ++ reason

namespace Task

def hasId (id : String) (t : Task) : Bool := t.id == id

/-- `ts` with `t` at its end, unless there is a task with its id; and whether it was added. -/
def appendNew (ts : List Task) (t : Task) : List Task × Bool :=
  if ts.any (·.hasId t.id) then (ts, false) else (ts ++ [t], true)

end Task

/-- A store that lives in memory, with everything it has announced so far. -/
structure MemoryStore where
  tasks : List Task := []
  announced : List String := []
  deriving Inhabited, Repr

namespace MemoryStore

def append (t : Task) (s : MemoryStore) : Bool × MemoryStore :=
  let (tasks, added) := Task.appendNew s.tasks t
  (added, { tasks, announced := if added then s.announced ++ [t.id] else s.announced })

end MemoryStore

/-- How many announcements wait for a receiver at most; older ones are lost. -/
def announcementCapacity : Nat := 64

/-- A receiver has seen the first `seen` announcements of its store. -/
structure Receiver where
  seen : Nat
  deriving DecidableEq, Inhabited, Repr

/-- What a receiver gets: how many announcements it has lost, and the ids in their order. -/
structure Delivery where
  lost : Nat
  ids : List String
  deriving DecidableEq, Inhabited, Repr

namespace Receiver

/-- A receiver of everything that is announced from now on. -/
def subscribe (announced : List String) : Receiver := ⟨announced.length⟩

def take (r : Receiver) (announced : List String) : Delivery × Receiver :=
  let waiting := announced.drop r.seen
  let lost := waiting.length - announcementCapacity
  (⟨lost, waiting.drop lost⟩, ⟨announced.length⟩)

end Receiver

/-- A catalog with the tasks of a store behind it; `custom` is the store's answer to a listing. A
store that cannot be read counts as empty. -/
structure LayeredCatalog where
  base : Catalog
  custom : Except StoreError (List Task)

namespace LayeredCatalog

def customTask (c : LayeredCatalog) (id : String) : Except StoreError (Option Task) :=
  c.custom.map fun ts => ts.find? (·.hasId id)

/-- The catalog's own tasks come first. -/
def lookup (c : LayeredCatalog) (id : String) : Option Task :=
  match c.base.lookup id with
  | some t => some t
  | none =>
    match c.customTask id with
    | .ok found => found
    | .error _ => none

def contains (c : LayeredCatalog) (id : String) : Bool :=
  (c.lookup id).isSome

/-- The catalog's tasks, then those of the store whose ids it does not have. -/
def tasks (c : LayeredCatalog) : List Task :=
  let custom :=
    match c.custom with
    | .ok ts => ts
    | .error _ => []
  c.base.tasks.toList ++ custom.filter fun t => !c.base.contains t.id

def ids (c : LayeredCatalog) : List String :=
  c.tasks.map (·.id)

end LayeredCatalog

end Workflow

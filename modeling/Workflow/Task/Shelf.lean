import Workflow.Task.FileStore

/-!
# Stores of any kind, and a shelf of them

A shelf holds stores over one tree of files. Names refer to stores; a store that is no longer named
stays on the shelf, for it may still be in use.
-/

namespace Workflow

/-- A store in memory, in a file, or one that cannot be reached. -/
inductive Store
  | memory (s : MemoryStore)
  | file (s : FileStore)
  | unreachable (reason : StoreError)
  deriving Inhabited, Repr

namespace Store

def list (fs : Files) : Store → Except StoreError (List Task)
  | memory s => .ok s.tasks
  | file s => s.list fs
  | unreachable reason => .error reason

def announced : Store → List String
  | memory s => s.announced
  | file s => s.announced
  | unreachable _ => []

def append (t : Task) : Store × Files → Except StoreError Bool × (Store × Files)
  | (memory s, fs) =>
    let (added, s) := s.append t
    (.ok added, (memory s, fs))
  | (file s, fs) =>
    let (added, s, fs) := s.append t fs
    (added, (file s, fs))
  | (unreachable reason, fs) => (.error reason, (unreachable reason, fs))

end Store

structure Shelf where
  files : Files := {}
  stores : Array Store := #[]
  names : List (String × Nat) := []
  /-- The named receivers, each with the place of its store. -/
  receivers : List (String × Nat × Receiver) := []
  deriving Inhabited, Repr

namespace Shelf

/-- Names a new store, in place of the one that had the name. -/
def put (name : String) (s : Store) (shelf : Shelf) : Shelf :=
  { shelf with
    stores := shelf.stores.push s
    names := (name, shelf.stores.size) :: shelf.names.filter (·.1 != name) }

/-- Forgets a name, and tells whether there was a store of that name. -/
def forget (name : String) (shelf : Shelf) : Bool × Shelf :=
  ((shelf.names.lookup name).isSome,
    { shelf with names := shelf.names.filter (·.1 != name) })

def place? (shelf : Shelf) (name : String) : Option Nat := shelf.names.lookup name

def list (place : Nat) (shelf : Shelf) : Except StoreError (List Task) :=
  (shelf.stores.getD place default).list shelf.files

def announced (place : Nat) (shelf : Shelf) : List String :=
  (shelf.stores.getD place default).announced

def append (place : Nat) (t : Task) (shelf : Shelf) : Except StoreError Bool × Shelf :=
  let (added, s, files) := Store.append t (shelf.stores.getD place default, shelf.files)
  (added, { shelf with files, stores := shelf.stores.setIfInBounds place s })

/-- Names a receiver of everything a store announces from now on. -/
def subscribe (name : String) (place : Nat) (shelf : Shelf) : Shelf :=
  { shelf with
    receivers :=
      (name, place, .subscribe (shelf.announced place)) ::
        shelf.receivers.filter (·.1 != name) }

/-- Takes what waits for a receiver, and tells whether its store is gone: it has no name and is not
among those in use. -/
def receive (name : String) (used : List Nat) (shelf : Shelf) :
    Option ((Delivery × Bool) × Shelf) :=
  (shelf.receivers.lookup name).map fun (place, receiver) =>
    let (delivery, receiver) := receiver.take (shelf.announced place)
    let gone := !(used.contains place || shelf.names.any (·.2 == place))
    ((delivery, gone),
      { shelf with
        receivers := (name, place, receiver) :: shelf.receivers.filter (·.1 != name) })

end Shelf

end Workflow

import Workflow.Files.Tree
import Workflow.Task.Store

/-!
# Task stores in files

A store in a file holds a list of tasks as indented JSON. Every operation reads the file anew, so
all stores on one path are one list. An append holds a lock file next to the store while it reads
the list and writes the longer one; that goes to a temporary file first, which is then renamed.
-/

namespace Workflow

/-- A store opened on a path, with everything it has announced so far. -/
structure FileStore where
  path : FilePath
  announced : List String := []
  deriving Inhabited, Repr

namespace FileStore

def render (ts : List Task) : String :=
  ((Codec.list Task.codec).write ts).pretty 0

/-- Reads a list of tasks; a blank text is the empty list. -/
def parse (text : String) : Except ReadError (List Task) :=
  if Text.allBlank text then .ok [] else (Codec.list Task.codec).readText text

def ioError {α : Type} (path : FilePath) (e : FileError) : Except StoreError α :=
  .error (.io path.text e.message)

def guard {α : Type} (path : FilePath) : Except FileError α → Except StoreError α
  | .ok a => .ok a
  | .error e => ioError path e

/-- The tasks in the file at a path; a path that leads nowhere holds none. -/
def readTasks (fs : Files) (path : FilePath) : Except StoreError (List Task) :=
  if !fs.has path then .ok []
  else
    match fs.read path with
    | .error e => ioError path e
    | .ok text =>
      match parse text with
      | .ok ts => .ok ts
      | .error e => .error (.corrupt e.message)

/-- Opens a store; what is in its file has to be readable. -/
def open? (fs : Files) (path : FilePath) : Except StoreError FileStore := do
  let _ ← readTasks fs path
  return { path }

def list (fs : Files) (s : FileStore) : Except StoreError (List Task) :=
  readTasks fs s.path

def get (fs : Files) (s : FileStore) (id : String) : Except StoreError (Option Task) :=
  (s.list fs).map fun ts => ts.find? (·.hasId id)

/-- Takes the lock of a store, for which its directory is made if it is missing. -/
def lock (fs : Files) (path : FilePath) : Except StoreError Unit × Files :=
  match fs.makeDirectories path.parent with
  | (.error e, fs) => (ioError path e, fs)
  | (.ok (), fs) =>
    let lockPath := path.sibling ".lock"
    fs.after (guard lockPath (fs.touch lockPath))

/-- Writes tasks by way of a temporary file, which stays where it cannot be renamed. -/
def writeTasks (fs : Files) (path : FilePath) (ts : List Task) : Except StoreError Unit × Files :=
  let temporary := path.sibling ".tmp"
  match guard temporary (fs.write temporary (.file (render ts))) with
  | .error e => (.error e, fs)
  | .ok fs => fs.after (guard path (fs.rename temporary path))

/-- Appends a task, unless the file has one with its id. The directory and the lock file stay even
where the append fails. -/
def append (t : Task) (s : FileStore) (fs : Files) : Except StoreError Bool × FileStore × Files :=
  match lock fs s.path with
  | (.error e, fs) => (.error e, s, fs)
  | (.ok (), fs) =>
    match readTasks fs s.path with
    | .error e => (.error e, s, fs)
    | .ok ts =>
      match Task.appendNew ts t with
      | (_, false) => (.ok false, s, fs)
      | (ts, true) =>
        match writeTasks fs s.path ts with
        | (.error e, fs) => (.error e, s, fs)
        | (.ok (), fs) => (.ok true, { s with announced := s.announced ++ [t.id] }, fs)

end FileStore

end Workflow

import Workflow.Files.Path
import Std.Data.HashMap

/-!
# Files

A tree of files as a value: what is at each place, and what reading and writing do. A file holds a
text, or bytes that are no text.
-/

namespace Workflow

inductive FileError
  | notFound
  | isDirectory
  | notDirectory
  | alreadyExists
  | nameTooLong
  /-- The path holds a character that ends every path. -/
  | invalidName
  | notText
  deriving DecidableEq, Inhabited, Repr

def FileError.message : FileError → String
  | notFound => "No such file or directory (os error 2)"
  | isDirectory => "Is a directory (os error 21)"
  | notDirectory => "Not a directory (os error 20)"
  | alreadyExists => "File exists (os error 17)"
  | nameTooLong => "File name too long (os error 36)"
  | invalidName => "file name contained an unexpected NUL byte"
  | notText => "stream did not contain valid UTF-8"

inductive Entry
  | directory
  | file (text : String)
  | binary
  deriving DecidableEq, Inhabited, Repr

/-- What is at the places of a tree. The root is a directory. -/
structure Files where
  entries : Std.HashMap (List String) Entry := {}
  deriving Inhabited, Repr

namespace Files

def content? (fs : Files) (place : List String) : Option Entry :=
  if place.isEmpty then some .directory else fs.entries[place]?

def put (fs : Files) (place : List String) (e : Entry) : Files := ⟨fs.entries.insert place e⟩

def erase (fs : Files) (place : List String) : Files := ⟨fs.entries.erase place⟩

/-- The outcome of a change, and the files after it; they stay as they are where it fails. -/
def after {ε : Type} (fs : Files) : Except ε Files → Except ε Unit × Files
  | .ok changed => (.ok (), changed)
  | .error e => (.error e, fs)

def longestName : Nat := 255

def longestPath : Nat := 4095

/-- The place that pieces of a path lead to. Each of them needs a directory to be followed from;
what is at the end may be missing. -/
def walk (fs : Files) (here : List String) : List String → Except FileError (List String)
  | [] => .ok here
  | piece :: rest =>
    match fs.content? here with
    | some .directory =>
      if longestName < piece.utf8ByteSize then .error .nameTooLong
      else fs.walk (FilePath.follow here piece) rest
    | some _ => .error .notDirectory
    | none => .error .notFound

/-- Why the text of a path cannot be followed in any tree. -/
def fault? (p : FilePath) : Option FileError :=
  if p.text.contains '\x00' then some .invalidName
  else if p.text == "" then some .notFound
  else if longestPath < p.text.utf8ByteSize then some .nameTooLong
  else none

def locate (fs : Files) (p : FilePath) : Except FileError (List String) :=
  match fault? p with
  | some e => .error e
  | none => fs.walk p.origin p.pieces

def find (fs : Files) (p : FilePath) : Except FileError Entry := do
  match fs.content? (← fs.locate p) with
  | some e => .ok e
  | none => .error .notFound

def has (fs : Files) (p : FilePath) : Bool := (fs.find p).toOption.isSome

def read (fs : Files) (p : FilePath) : Except FileError String := do
  match ← fs.find p with
  | .file text => .ok text
  | .binary => .error .notText
  | .directory => .error .isDirectory

/-- Makes the directories that pieces of a path pass through where they are missing; those that are
made stay where it fails. A file in the way counts as no directory, but at the end, or behind
something that was missing, as being there already. -/
def makeWay (fs : Files) (someMissing : Bool) (here : List String) :
    List String → Except FileError Unit × Files
  | [] => (.ok (), fs)
  | piece :: rest =>
    if longestName < piece.utf8ByteSize then (.error .nameTooLong, fs)
    else
      let place := FilePath.follow here piece
      match fs.content? place with
      | some .directory => fs.makeWay someMissing place rest
      | some _ =>
        (.error (if someMissing || rest.isEmpty then .alreadyExists else .notDirectory), fs)
      | none => (fs.put place .directory).makeWay true place rest

/-- Makes the directory that a path leads to, and those it passes through. A blank path leads to
one that is there. A dot at the end stays in a directory, which it does not make: it has to be there
once the way to what is in front of the dot is made. -/
def makeDirectories (fs : Files) (p : FilePath) : Except FileError Unit × Files :=
  let pieces := FilePath.trimmed p.pieces
  if p.text == "" then (.ok (), fs)
  else
    match fault? p with
    | some e => (.error e, fs)
    | none =>
      if pieces == FilePath.unslashed p.pieces then fs.makeWay false p.origin pieces
      else
        match fs.find p with
        | .error .notFound =>
          match fs.makeWay false p.origin p.above with
          | (.ok (), fs) => ((fs.find p).map fun _ => (), fs)
          | failed => failed
        | found => (found.map fun _ => (), fs)

/-- Writes a file, whose directory has to be there. -/
def write (fs : Files) (p : FilePath) (e : Entry) : Except FileError Files := do
  let place ← fs.locate p
  match fs.content? place with
  | some .directory => .error .isDirectory
  | _ => .ok (fs.put place e)

/-- Creates an empty file, unless there is one. -/
def touch (fs : Files) (p : FilePath) : Except FileError Files :=
  match fs.find p with
  | .ok .directory => .error .isDirectory
  | .ok _ => .ok fs
  | .error .notFound => fs.write p (.file "")
  | .error e => .error e

/-- Moves a file in place of another one. A slash at the end stands for a directory, which a file
cannot replace. -/
def rename (fs : Files) (old new : FilePath) : Except FileError Files := do
  let source ← fs.locate old
  let e ← fs.find old
  if let some fault := fault? new then throw fault
  let target ← fs.walk new.origin (FilePath.unslashed new.pieces)
  if new.pieces.getLast? == some "" then throw .notDirectory
  match fs.content? target with
  | some .directory => .error .isDirectory
  | _ => .ok ((fs.erase source).put target e)

end Files

end Workflow

import Workflow.Json.Printer
import Workflow.Json.Reader

/-!
# Shapes of data in JSON

A `Codec` writes the values of a type as JSON and reads them back. Reading walks the value from
left to right and stops at the first fault, which it reports as a `ReadError`. A `Record` is the
shape of a structure: its fields in declaration order, from which both directions follow.
-/

namespace Workflow

/-- Why JSON does not have the shape that was asked for. -/
inductive ReadError
  /-- The text is not JSON where it was to be read. -/
  | malformed
  | wrongType (found : Json) (wanted : String)
  | negative (found : Int) (wanted : String)
  | missingField (name : String)
  | duplicateField (name : String)
  | unknownVariant (found : String) (known : List String)
  | tooFewElements (count : Nat) (wanted : String)
  | tooManyElements (count : Nat)
  /-- A value that is no name, where one of several names was to be read. -/
  | notAName (found : Json)
  /-- An object that does not have exactly one key, where a name was to be read; `inside` is what is
  wrong with it up to its second key. -/
  | notOneKey (inside : ReadError)
  deriving Inhabited

namespace ReadError

def describe : Json → String
  | .null => "null"
  | .bool b => "boolean `" ++ (if b then "true" else "false") ++ "`"
  | .int n => "integer `" ++ toString n ++ "`"
  | .float x => "floating point `" ++ Json.floatText x ++ "`"
  | .str s => "string " ++ Text.quoted s
  | .arr _ => "sequence"
  | .obj _ => "map"
  | .broken => "null"
  | .unreadable inner | .unkeyed inner => describe inner

/-- The names a message offers: two are joined by a word, more are listed. -/
def offer (known : List String) : String :=
  let ticked := known.map fun n => "`" ++ n ++ "`"
  match ticked with
  | [a] => a
  | [a, b] => a ++ " or " ++ b
  | ns => "one of " ++ ", ".intercalate ns

def message : ReadError → String
  | malformed => "the text is not valid JSON"
  | wrongType found wanted => "invalid type: " ++ describe found ++ ", expected " ++ wanted
  | negative found wanted =>
    "invalid value: integer `" ++ toString found ++ "`, expected " ++ wanted
  | missingField name => "missing field `" ++ name ++ "`"
  | duplicateField name => "duplicate field `" ++ name ++ "`"
  | unknownVariant found known => "unknown variant `" ++ found ++ "`, expected " ++ offer known
  | tooFewElements count wanted => "invalid length " ++ toString count ++ ", expected " ++ wanted
  | tooManyElements count =>
    "invalid length " ++ toString count ++ ", expected fewer elements in array"
  | notAName found => "invalid type: " ++ describe found ++ ", expected string or map"
  | notOneKey _ => "invalid value: map, expected map with a single key"

/-- In a text a list ends where its last field ends, and a name can only be a string or an object
that ends after its first key: what breaks these rules is a fault of the text, met where it
stands. -/
def inText : ReadError → ReadError
  | tooManyElements _ | notAName _ => malformed
  | notOneKey inside => inside
  | e => e

end ReadError

/-- A shape of JSON: how the values of a type are written and read. -/
structure Codec (α : Type) where
  write : α → Json
  read : Json → Except ReadError α

namespace Codec

variable {α β : Type}

/-- The complaint about a value that is not of the wanted type. A container is seen by its bracket
alone, anything else has to be read first. -/
def mismatch (wanted : String) : Json → ReadError
  | .broken => .malformed
  | .unreadable (.arr xs) => .wrongType (.arr xs) wanted
  | .unreadable (.obj fs) => .wrongType (.obj fs) wanted
  | .unreadable _ => .malformed
  | j => .wrongType j wanted

/-- The complaint about a value that is neither a list nor an object where both can be read: one of
them that is too deep is not JSON that can be read. -/
def containerMismatch (wanted : String) : Json → ReadError
  | .broken | .unreadable _ => .malformed
  | j => .wrongType j wanted

def listMismatch : Json → ReadError
  | .unreadable (.arr _) => .malformed
  | j => mismatch "a sequence" j

def objectMismatch : Json → ReadError
  | .unreadable (.obj _) => .malformed
  | j => mismatch "a map" j

def string : Codec String where
  write := .str
  read
    | .str s => .ok s
    | j => .error (mismatch "a string" j)

def bool : Codec Bool where
  write := .bool
  read
    | .bool b => .ok b
    | j => .error (mismatch "a boolean" j)

/-- A float is read from any number; one that is no number is written as null. -/
def float : Codec Float where
  write := Json.ofFloat
  read
    | .float x => .ok x
    | .int n => .ok (Float.ofInt n)
    | j => .error (mismatch "f64" j)

/-- A whole number that is not negative, of the type a message calls `wanted`. -/
def natural (wanted : String) : Codec Nat where
  write n := .int n
  read
    | .int n => if n < 0 then .error (.negative n wanted) else .ok n.toNat
    | j => .error (mismatch wanted j)

/-- Any JSON, kept as a map at every depth. -/
def json : Codec Json where
  write := id
  read j := if j.readable then .ok j.canonical else .error .malformed

def optional (c : Codec α) : Codec (Option α) where
  write
    | none => .null
    | some a => c.write a
  read
    | .null => .ok none
    | j => (c.read j).map some

def readItems (c : Codec α) : List Json → Except ReadError (List α)
  | [] => .ok []
  | j :: js => do
    let a ← c.read j
    let as ← readItems c js
    return a :: as

def list (c : Codec α) : Codec (List α) where
  write as := .arr (as.map c.write)
  read
    | .arr items => c.readItems items
    | j => .error (listMismatch j)

def readEntries (c : Codec α) : List (String × Json) → Except ReadError (List (String × α))
  | [] => .ok []
  | (k, j) :: fs => do
    if !j.isKeyed then .error .malformed
    let a ← c.read j
    let as ← readEntries c fs
    return (k, a) :: as

/-- The entries of an object in their order, repeated keys included. -/
def entries (c : Codec α) : Codec (List (String × α)) where
  write as := .obj (as.map fun (k, a) => (k, c.write a))
  read
    | .obj fields => c.readEntries fields
    | j => .error (objectMismatch j)

def choose (all : List α) (nameOf : α → String) (s : String) : Except ReadError α :=
  match all.find? (nameOf · == s) with
  | some a => .ok a
  | none => .error (.unknownVariant s (all.map nameOf))

/-- The value of a name that is a key with null under it. -/
def chooseKey (all : List α) (nameOf : α → String) : String × Json → Except ReadError α
  | (_, .unkeyed _) => .error .malformed
  | (k, v) =>
    match choose all nameOf k, v with
    | .ok a, .null => .ok a
    | .ok _, v => .error (mismatch "unit" v)
    | .error e, _ => .error e

/-- One of several names: a string, or an object with the name as its only key and null under it. -/
def name (all : List α) (nameOf : α → String) : Codec α where
  write a := .str (nameOf a)
  read
    | .str s => choose all nameOf s
    | .obj [field] => chooseKey all nameOf field
    | .obj [] => .error (.notOneKey .malformed)
    | .obj (field :: _) =>
      match chooseKey all nameOf field with
      | .ok _ => .error (.notOneKey .malformed)
      | .error e => .error (.notOneKey e)
    | .broken | .unreadable _ => .error .malformed
    | j => .error (.notAName j)

end Codec

/-- One field of a structure: its key, how it is written, and how it is read into a structure. -/
structure Field (α : Type) where
  name : String
  /-- A second key under which the field is read. -/
  otherName : Option String := none
  isRequired : Bool := false
  /-- None leaves the field out. -/
  write : α → Option Json
  read : Json → α → Except ReadError α

namespace Field

variable {α β : Type}

def required (name : String) (c : Codec β) (get : α → β) (set : α → β → α) : Field α where
  name := name
  isRequired := true
  write a := some (c.write (get a))
  read j a := (c.read j).map (set a)

/-- A field that keeps its default where it is absent. -/
def defaulted (name : String) (c : Codec β) (get : α → β) (set : α → β → α) : Field α where
  name := name
  write a := some (c.write (get a))
  read j a := (c.read j).map (set a)

def nullable (name : String) (c : Codec β) (get : α → Option β) (set : α → Option β → α) :
    Field α :=
  defaulted name c.optional get set

/-- A field that is left out where it has no value. -/
def omitted (name : String) (c : Codec β) (get : α → Option β) (set : α → Option β → α) :
    Field α where
  name := name
  write a := (get a).map c.write
  read j a := (c.optional.read j).map (set a)

/-- A flag that is left out where it is false. -/
def flag (name : String) (get : α → Bool) (set : α → Bool → α) : Field α where
  name := name
  write a := if get a then some (.bool true) else none
  read j a := (Codec.bool.read j).map (set a)

def orNamed (f : Field α) (other : String) : Field α :=
  { f with otherName := some other }

def answersTo (f : Field α) (key : String) : Bool :=
  f.name == key || f.otherName == some key

end Field

/-- The shape of a structure: its name in messages, a structure with all defaults, and its fields
in declaration order. -/
structure Record (α : Type) where
  typeName : String
  blank : α
  fields : List (Field α)

namespace Record

variable {α : Type}

def write (r : Record α) (a : α) : Json :=
  .obj (r.fields.filterMap fun f => (f.write a).map (f.name, ·))

/-- Reads the fields of an object in the order of the text; `seen` are the names read before. Keys
that are no field's are skipped. -/
def readFields (r : Record α) (seen : List String) (a : α) :
    List (String × Json) → Except ReadError (List String × α)
  | [] => .ok (seen, a)
  | (key, j) :: fs =>
    if !j.isKeyed then .error .malformed
    else match r.fields.find? (·.answersTo key) with
    | none => if j.skippable then r.readFields seen a fs else .error .malformed
    | some f =>
      if f.name ∈ seen then .error (.duplicateField f.name)
      else do
        let a ← f.read j a
        r.readFields (f.name :: seen) a fs

/-- Reads the fields of a list by their positions; `count` elements went before. -/
def readElements (r : Record α) (count : Nat) (a : α) :
    List (Field α) → List Json → Except ReadError α
  | [], [] => .ok a
  | [], js => .error (.tooManyElements (count + js.length))
  | f :: fs, [] =>
    if f.isRequired then
      .error (.tooFewElements count
        ("struct " ++ r.typeName ++ " with " ++ toString r.fields.length ++ " elements"))
    else r.readElements (count + 1) a fs []
  | f :: fs, j :: js => do
    let a ← f.read j a
    r.readElements (count + 1) a fs js

/-- Reads an object or a list of fields. Fields that are missing from an object are noticed at its
end, in declaration order. -/
def read (r : Record α) : Json → Except ReadError α
  | .obj fields => do
    let (seen, a) ← r.readFields [] r.blank fields
    match r.fields.find? fun f => f.isRequired && !seen.contains f.name with
    | some f => .error (.missingField f.name)
    | none => .ok a
  | .arr items => r.readElements 0 r.blank r.fields items
  | j => .error (Codec.containerMismatch ("struct " ++ r.typeName) j)

def codec (r : Record α) : Codec α := ⟨r.write, r.read⟩

end Record

/-- Reads a whole text. White space alone may follow the value. -/
def Codec.readText {α : Type} (c : Codec α) (text : String) : Except ReadError α :=
  let doc := Json.Document.ofText text
  match c.read doc.value with
  | .error e => .error e.inText
  | .ok a => if doc.ended then .ok a else .error .malformed

end Workflow

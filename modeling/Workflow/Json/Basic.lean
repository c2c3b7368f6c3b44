/-!
# JSON values

A value keeps the order and the repetitions of the keys of its text. Some constructors stand for
text that is no value: where a text stops being JSON, and where it is JSON that can only be skipped.
A reader that walks the value from left to right therefore meets its own complaints and those
about the text in the order in which they stand there.
-/

namespace Workflow

/-- A JSON value, or the tree of a text up to the place where it stops being JSON. -/
inductive Json
  | null
  | bool (b : Bool)
  | int (n : Int)
  | float (x : Float)
  | str (s : String)
  | arr (items : List Json)
  | obj (fields : List (String × Json))
  /-- Here the text stops being JSON. -/
  | broken
  /-- Well-formed text that can be skipped but not read: a container nested too deep, a number too
  large for a float, or a string with half a surrogate pair. -/
  | unreadable (inner : Json)
  /-- The value of a field whose key cannot be read, kept under the empty key. Such a field can be
  skipped if its key has half a surrogate pair; where no key stands, the value is broken. -/
  | unkeyed (value : Json)
  deriving Inhabited, BEq, Repr

namespace Json

mutual

/-- How many containers are nested in one another at most. -/
def height : Json → Nat
  | arr items => heightItems items + 1
  | obj fields => heightFields fields + 1
  | unreadable inner => inner.height
  | unkeyed value => value.height
  | _ => 0

def heightItems : List Json → Nat
  | [] => 0
  | j :: js => max j.height (heightItems js)

def heightFields : List (String × Json) → Nat
  | [] => 0
  | (_, j) :: fs => max j.height (heightFields fs)

end

mutual

/-- Whether the text of the value can be skipped: nothing in it is broken. -/
def skippable : Json → Bool
  | arr items => skippableItems items
  | obj fields => skippableFields fields
  | unreadable inner => inner.skippable
  | unkeyed value => value.skippable
  | broken => false
  | _ => true

def skippableItems : List Json → Bool
  | [] => true
  | j :: js => j.skippable && skippableItems js

def skippableFields : List (String × Json) → Bool
  | [] => true
  | (_, j) :: fs => j.skippable && skippableFields fs

end

mutual

def readable : Json → Bool
  | arr items => readableItems items
  | obj fields => readableFields fields
  | broken | unreadable _ | unkeyed _ => false
  | _ => true

def readableItems : List Json → Bool
  | [] => true
  | j :: js => j.readable && readableItems js

def readableFields : List (String × Json) → Bool
  | [] => true
  | (_, j) :: fs => j.readable && readableFields fs

end

/-- Whether a field with this value has a key that can be read. -/
def isKeyed : Json → Bool
  | unkeyed _ => false
  | _ => true

def lookup (key : String) : List (String × Json) → Option Json
  | [] => none
  | (k, v) :: fs => if k = key then some v else lookup key fs

/-- Puts a value under its key into fields that are sorted by key, replacing what is there. -/
def insertField (key : String) (value : Json) : List (String × Json) → List (String × Json)
  | [] => [(key, value)]
  | (k, v) :: fs =>
    if key < k then (key, value) :: (k, v) :: fs
    else if key = k then (key, value) :: fs
    else (k, v) :: insertField key value fs

mutual

/-- The value as a map: at every depth keys are sorted by code point, and of a repeated key the
last value counts. -/
def canonical : Json → Json
  | arr items => arr (canonicalItems items)
  | obj fields => obj (canonicalFields [] fields)
  | j => j

def canonicalItems : List Json → List Json
  | [] => []
  | j :: js => j.canonical :: canonicalItems js

/-- Inserts `fields` one after the other into the sorted fields `into`. -/
def canonicalFields (into : List (String × Json)) : List (String × Json) → List (String × Json)
  | [] => into
  | (k, j) :: fs => canonicalFields (insertField k j.canonical into) fs

end

mutual

/-- Lays one value over another: objects are merged key by key at every depth, anything else
replaces what is below it. -/
def overlay : (base top : Json) → Json
  | obj bs, obj os => obj (overlayFields bs os)
  | _, top => top

def overlayFields (base : List (String × Json)) : List (String × Json) → List (String × Json)
  | [] => base
  | (k, o) :: os =>
    match lookup k base with
    | some b => overlayFields (insertField k (overlay b o) base) os
    | none => overlayFields (insertField k o base) os

end

/-- A float as JSON has it: an infinity or a NaN is null. -/
def ofFloat (x : Float) : Json :=
  if x.isFinite then float x else null

end Json

end Workflow

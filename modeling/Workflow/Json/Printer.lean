import Workflow.Json.Basic
import Workflow.Decimal.Notation
import Workflow.Text.Quoted

/-!
# JSON texts

Two layouts of a value: on one line without white space, and indented by two spaces. Fields are
written in the order they have in the value.
-/

namespace Workflow.Json

/-- A character inside a JSON string. Control characters are escaped, all others are written raw. -/
def escapeChar (c : Char) : List Char :=
  if c == '"' then ['\\', '"']
  else if c == '\\' then ['\\', '\\']
  else if c == '\n' then ['\\', 'n']
  else if c == '\t' then ['\\', 't']
  else if c == '\r' then ['\\', 'r']
  else if c == '\x08' then ['\\', 'b']
  else if c == '\x0c' then ['\\', 'f']
  else if c.toNat < 0x20 then
    let h := Text.hex c.toNat
    ['\\', 'u'] ++ List.replicate (4 - h.length) '0' ++ h
  else [c]

def stringText (s : String) : String :=
  String.ofList ('"' :: s.toList.flatMap escapeChar ++ ['"'])

/-- A float that is no number is written as null. -/
def floatText (x : Float) : String :=
  (Decimal.shortestText? x).getD "null"

mutual

/-- The value on one line. -/
def compact : Json → String
  | bool b => if b then "true" else "false"
  | int n => toString n
  | float x => floatText x
  | str s => stringText s
  | arr items => "[" ++ ",".intercalate (compactItems items) ++ "]"
  | obj fields => "\x7b" ++ ",".intercalate (compactFields fields) ++ "\x7d"
  | null | broken | unreadable _ | unkeyed _ => "null"

def compactItems : List Json → List String
  | [] => []
  | j :: js => j.compact :: compactItems js

def compactFields : List (String × Json) → List String
  | [] => []
  | (k, j) :: fs => (stringText k ++ ":" ++ j.compact) :: compactFields fs

end

/-- The lines of a container between its brackets, of which an empty one has none. -/
def block (opening closing : String) (depth : Nat) (lines : List String) : String :=
  let indent := fun n => String.ofList (List.replicate (2 * n) ' ')
  if lines.isEmpty then opening ++ closing
  else
    opening ++ "\n" ++ ",\n".intercalate (lines.map (indent (depth + 1) ++ ·)) ++ "\n" ++
      indent depth ++ closing

mutual

/-- The value over several lines, inside `depth` containers. -/
def pretty (depth : Nat) : Json → String
  | bool b => if b then "true" else "false"
  | int n => toString n
  | float x => floatText x
  | str s => stringText s
  | arr items => block "[" "]" depth (prettyItems (depth + 1) items)
  | obj fields => block "\x7b" "\x7d" depth (prettyFields (depth + 1) fields)
  | null | broken | unreadable _ | unkeyed _ => "null"

def prettyItems (depth : Nat) : List Json → List String
  | [] => []
  | j :: js => j.pretty depth :: prettyItems depth js

def prettyFields (depth : Nat) : List (String × Json) → List String
  | [] => []
  | (k, j) :: fs => (stringText k ++ ": " ++ j.pretty depth) :: prettyFields depth fs

end

end Workflow.Json

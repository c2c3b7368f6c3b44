import Workflow.Task.Definition

/-!
# Names of merged tasks

A namer may suggest a name. It is taken if it arrives in time and is clean; otherwise the names of
the sources are joined.
-/

namespace Workflow

inductive NamingError
  | unavailable (reason : String)
  | request (reason : String)
  | malformed (reason : String)
  | timeout (ms : Nat)
  deriving DecidableEq, Inhabited, Repr

def NamingError.code : NamingError → String
  | unavailable _ => "Unavailable"
  | request _ => "Request"
  | malformed _ => "Malformed"
  | timeout _ => "Timeout"

def NamingError.message : NamingError → String
  | unavailable reason => "Naming service is not configured: " ++ reason
  | request reason => "Naming request failed: " ++ reason
  | malformed reason => "Naming service returned an unusable name: " ++ reason
  | timeout ms => "Naming service did not answer within " ++ toString ms ++ " ms"

namespace Merge

def isQuote (c : Char) : Bool := c == '"' || c == '\''

/-- A suggestion without white space, then quotes, then white space at its ends. -/
def cleanName (raw : String) : String :=
  String.ofList (Text.trimBy Text.isBlank (Text.trimBy isQuote (Text.trimBy Text.isBlank raw.toList)))

/-- A suggested name as it is used: clean, on one line, and at most `limit` characters long. -/
def acceptName (raw : String) (limit : Nat) : Except NamingError String :=
  let name := cleanName raw
  if name.isEmpty then .error (.malformed "empty name")
  else if name.toList.any fun c => c == '\n' || c == '\r' then
    .error (.malformed "name spans several lines")
  else if limit < name.length then
    .error (.malformed
      ("name is " ++ toString name.length ++ " characters, limit is " ++ toString limit))
  else .ok name

/-- The name that is always there: the names of the sources. -/
def fallbackName (sources : List Task) (separator : String) : String :=
  separator.intercalate (sources.map (·.shownName))

def description (sources : List Task) : String :=
  "Combined from: " ++ ", ".intercalate (sources.map (·.shownName))

/-- A namer's answer, and after how many milliseconds it is there. -/
structure Reply where
  delay : Nat := 0
  answer : Except NamingError String

/-- What suggests a name for the given sources. -/
abbrev Namer := List Task → Reply

def noNamer : Namer := fun _ => { answer := .error (.unavailable "no naming service configured") }

/-- The reply under a time limit. One that is there at once is always in time. -/
def Reply.within (limit : Option Nat) (r : Reply) : Except NamingError String :=
  match limit with
  | some ms => if r.delay = 0 ∨ r.delay < ms then r.answer else .error (.timeout ms)
  | none => r.answer

/-- How long is waited for a reply under a time limit. -/
def Reply.elapsed (limit : Option Nat) (r : Reply) : Nat :=
  match limit with
  | some ms => min r.delay ms
  | none => r.delay

def nameFor (reply : Except NamingError String) (limit : Nat) (fallback : String) : String :=
  match reply.bind (acceptName · limit) with
  | .ok name => name
  | .error _ => fallback

end Merge

end Workflow

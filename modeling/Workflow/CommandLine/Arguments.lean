import Workflow.Layout.Place

/-!
# Arguments of the command line

Two file names, a panel, and options. An option with a value takes it from behind an equals sign or
from the next argument, which must not look like an option.
-/

namespace Workflow.CommandLine

inductive Format
  | outline
  | json
  deriving DecidableEq, Inhabited, Repr

structure Options where
  registry : String
  catalog : String
  panel : String
  /-- Ids of nodes to enter, separated by slashes. -/
  path : String := ""
  /-- The target and the dropped node of a merge. -/
  merge : Option (String × String) := none
  store : Option String := none
  format : Format := .outline
  direction : Option Layout.Direction := none
  noLayout : Bool := false
  deriving Repr

inductive UsageError
  | unknown (argument : String)
  | repeated (option : String)
  | missingValue (option : String)
  | unexpectedValue (option value : String)
  | badValue (option value : String)
  | missing (names : List String)
  deriving DecidableEq, Inhabited, Repr

def UsageError.message : UsageError → String
  | unknown argument => "unexpected argument '" ++ argument ++ "' found"
  | repeated option => "the argument '" ++ option ++ "' cannot be used multiple times"
  | missingValue option => "a value is required for '" ++ option ++ "' but none was supplied"
  | unexpectedValue option value =>
    "unexpected value '" ++ value ++ "' for '" ++ option ++ "' found; no more were expected"
  | badValue option value => "invalid value '" ++ value ++ "' for '" ++ option ++ "'"
  | missing names =>
    "the following required arguments were not provided: " ++ " ".intercalate names

/-- The options that take one value, by their long and short names. -/
inductive Setting
  | panel
  | path
  | store
  | format
  | direction
  deriving DecidableEq, Inhabited, Repr

def Setting.longName : Setting → String
  | panel => "--panel"
  | path => "--path"
  | store => "--store"
  | format => "--format"
  | direction => "--direction"

def settings : List Setting := [.panel, .path, .store, .format, .direction]

/-- An argument by what it says. -/
inductive Argument
  | positional (text : String)
  | setting (s : Setting) (value : Option String)
  | merge (value : Option String)
  | noLayout (value : Option String)
  | ended
  | unknown (text : String)
  deriving DecidableEq, Inhabited, Repr

/-- Splits an option at its equals sign. -/
def splitValue (cs : List Char) : List Char × Option (List Char) :=
  match cs.span (· != '=') with
  | (name, _ :: value) => (name, some value)
  | (name, []) => (name, none)

def looksLikeOption (text : String) : Bool :=
  match text.toList with
  | '-' :: _ :: _ => true
  | _ => false

def shortSetting? : Char → Option Setting
  | 'p' => some .panel
  | 'f' => some .format
  | _ => none

def Argument.ofLong (text : String) (cs : List Char) : Argument :=
  let (name, value) := splitValue cs
  let name := String.ofList name
  let value := value.map String.ofList
  if name == "--merge" then .merge value
  else if name == "--no-layout" then .noLayout value
  else
    match settings.find? (·.longName == name) with
    | some s => .setting s value
    | none => .unknown text

def Argument.ofText (text : String) : Argument :=
  match text.toList with
  | ['-', '-'] => .ended
  | '-' :: '-' :: cs => .ofLong text ('-' :: '-' :: cs)
  | '-' :: c :: cs =>
    match shortSetting? c, cs with
    | some s, [] => .setting s none
    | some s, '=' :: value => .setting s (some (String.ofList value))
    | some s, value => .setting s (some (String.ofList value))
    | none, _ => .unknown text
  | _ => .positional text

structure Collected where
  positionals : List String := []
  values : List (Setting × String) := []
  merges : List String := []
  noLayout : Bool := false

def Collected.set (c : Collected) (s : Setting) (value : String) : Except UsageError Collected :=
  if c.values.any (·.1 == s) then .error (.repeated s.longName)
  else .ok { c with values := c.values ++ [(s, value)] }

def Collected.position (c : Collected) (text : String) : Except UsageError Collected :=
  if c.positionals.length < 2 then .ok { c with positionals := c.positionals ++ [text] }
  else .error (.unknown text)

def collect (c : Collected) : List String → Except UsageError Collected
  | [] => .ok c
  | text :: rest =>
    match Argument.ofText text with
    | .positional text => do
      let c ← c.position text
      collect c rest
    | .setting s (some value) => do
      let c ← c.set s value
      collect c rest
    | .setting s none =>
      match rest with
      | value :: rest =>
        if looksLikeOption value then .error (.missingValue s.longName)
        else do
          let c ← c.set s value
          collect c rest
      | [] => .error (.missingValue s.longName)
    | .merge (some _) => .error (.missingValue "--merge")
    | .merge none =>
      match rest with
      | target :: dropped :: rest =>
        if looksLikeOption target || looksLikeOption dropped then .error (.missingValue "--merge")
        else collect { c with merges := c.merges ++ [target, dropped] } rest
      | _ => .error (.missingValue "--merge")
    | .noLayout (some value) => .error (.unexpectedValue "--no-layout" value)
    | .noLayout none =>
      if c.noLayout then .error (.repeated "--no-layout")
      else collect { c with noLayout := true } rest
    | .ended => rest.foldlM Collected.position c
    | .unknown text => .error (.unknown text)

def format (value : String) : Except UsageError Format :=
  if value == "outline" then .ok .outline
  else if value == "json" then .ok .json
  else .error (.badValue "--format" value)

def direction (value : String) : Except UsageError Layout.Direction :=
  if value == "left-to-right" then .ok .leftToRight
  else if value == "top-to-bottom" then .ok .topToBottom
  else .error (.badValue "--direction" value)

def Collected.value? (c : Collected) (s : Setting) : Option String :=
  c.values.lookup s

/-- The required arguments that are not among those read. -/
def Collected.missing (c : Collected) : List String :=
  ["<REGISTRY_PATH>", "<CATALOG_PATH>"].drop c.positionals.length ++
    if (c.value? .panel).isNone then ["--panel <PANEL>"] else []

def parse (arguments : List String) : Except UsageError Options := do
  let c ← collect {} arguments
  let format ←
    match c.value? .format with
    | some v => format v
    | none => .ok .outline
  let direction ←
    match c.value? .direction with
    | some v => (direction v).map some
    | none => .ok none
  match c.positionals, c.value? .panel with
  | [registry, catalog], some panel =>
    return {
      registry, catalog, panel, format, direction
      path := (c.value? .path).getD ""
      merge :=
        match c.merges with
        | target :: dropped :: _ => some (target, dropped)
        | _ => none
      store := c.value? .store
      noLayout := c.noLayout }
  | _, _ => .error (.missing c.missing)

end Workflow.CommandLine

import Workflow.Graph.Edit
import Workflow.Graph.Validity
import Workflow.Merge.Name
import Workflow.Merge.Quotient
import Workflow.Merge.Synthesis
import Workflow.Task.Store

/-!
# Merging two nodes

A merge has three steps. It begins by flagging the target and taking down what is merged; then the
merged task gets its name; then it is committed: the task is stored and the level replaced, or
neither happens. A merge that is given up clears the flag again.
-/

namespace Workflow

structure Merge.Config where
  /-- How long to wait for a name, in milliseconds; none is for ever. -/
  namingTimeout : Option Nat := some 10000
  maxNameLength : Nat := 60
  separator : String := " + "
  category : String := "Custom"
  deriving DecidableEq, Inhabited, Repr

namespace Merge.Config

def record : Record Config where
  typeName := "CombineConfig"
  blank := {}
  fields := [
    .nullable "namingTimeoutMs" (.natural "u64") namingTimeout
      fun c v => { c with namingTimeout := v },
    .defaulted "maxNameLen" (.natural "usize") maxNameLength
      fun c v => { c with maxNameLength := v },
    .defaulted "nameSeparator" .string separator fun c v => { c with separator := v },
    .defaulted "category" .string category fun c v => { c with category := v }]

def codec : Codec Config := record.codec

/-- The longest time that can be waited, in milliseconds. -/
def maxTimeout : Nat := 0xFFFFFFFFFFFFFFFF

/-- The configuration with a time limit in seconds and nanoseconds, cut to whole milliseconds. -/
def withTimeout (c : Config) (limit : Option (Nat × Nat)) : Config :=
  { c with
    namingTimeout := limit.map fun (secs, nanos) =>
      min (secs * 1000 + nanos / 1000000) maxTimeout }

end Merge.Config

inductive MergeError
  | nodeNotFound (id : String)
  | notTaskBearing (id : String)
  | sameNode (id : String)
  | inProgress (id : String)
  | stale (id : String)
  | store (cause : StoreError)
  | graph (cause : GraphError)
  deriving DecidableEq, Inhabited, Repr

def MergeError.code : MergeError → String
  | nodeNotFound _ => "NodeNotFound"
  | notTaskBearing _ => "NotTaskBearing"
  | sameNode _ => "SameNode"
  | inProgress _ => "InProgress"
  | stale _ => "Stale"
  | store _ => "Store"
  | graph _ => "Graph"

def MergeError.message : MergeError → String
  | nodeNotFound id => "Node '" ++ id ++ "' not found at this level"
  | notTaskBearing id => "Node '" ++ id ++ "' does not carry a task and cannot be combined"
  | sameNode id => "A node cannot be combined with itself ('" ++ id ++ "')"
  | inProgress id => "Node '" ++ id ++ "' is already being combined"
  | stale id => "Node '" ++ id ++ "' changed while the merge was pending"
  | store cause => "Failed to store combined task: " ++ cause.message
  | graph cause => "Merged graph would be invalid: " ++ cause.message

namespace Merge

/-- A merge that has begun: its nodes, what they held then, and what was made of it. -/
structure Pending where
  target : String
  dropped : String
  targetData : TaskData
  droppedData : TaskData
  sources : List Task
  config : Task.Config
  deriving Repr

structure Resolved extends Pending where
  task : Task
  deriving Repr

structure Outcome where
  node : String
  removed : String
  task : Task
  droppedEdges : Nat
  deriving Repr

/-- The data of the first node of an id. -/
def taskData (l : Level) (id : String) : Except MergeError TaskData :=
  match l.node? id with
  | none => .error (.nodeNotFound id)
  | some n =>
    match n.data with
    | none => .error (.notTaskBearing id)
    | some d => .ok d

def setFlag (flag : Bool) (id : String) (l : Level) : Level :=
  l.mapNode id (·.mapData fun d => { d with combining := flag })

/-- What a merge takes down at its beginning, if both nodes can be merged. -/
def prepare (target dropped : String) (l : Level) : Except MergeError Pending := do
  if target = dropped then .error (.sameNode target)
  let targetData ← taskData l target
  let droppedData ← taskData l dropped
  if targetData.combining then .error (.inProgress target)
  if droppedData.combining then .error (.inProgress dropped)
  let sources := sources targetData droppedData
  return {
    target, dropped, targetData, droppedData, sources
    config := config targetData.task droppedData.task sources }

/-- Begins a merge and flags its target. -/
def start (target dropped : String) (l : Level) : Edited (Except MergeError Pending) :=
  match prepare target dropped l with
  | .error e => .refused l e
  | .ok p => { level := setFlag true target l, result := .ok p }

def task (c : Config) (p : Pending) (id name : String) : Task where
  id := id
  name := name
  description := description p.sources
  icon := (p.sources.head?.map (·.icon)).getD ""
  category := c.category
  config := p.config

/-- Gives a merge its task. The time limit counts only where there is a clock. -/
def resolve (c : Config) (namer : Namer) (hasClock : Bool) (tokens : TokenSupply) (p : Pending) :
    Resolved × TokenSupply :=
  let limit := if hasClock then c.namingTimeout else none
  let reply := (namer p.sources).within limit
  let name := nameFor reply c.maxNameLength (fallbackName p.sources c.separator)
  let (id, tokens) := tokens.freshTaskId
  ({ p with task := task c p id name }, tokens)

/-- Whether a node still holds what a merge was begun with. -/
def unchanged (l : Level) (id : String) (was : TaskData) : Bool :=
  match (l.node? id).bind (·.data) with
  | some d => d.task == was.task && d.combined == was.combined
  | none => false

/-- The level that a merge leads to, if nothing stands against it. -/
def stage (r : Resolved) (l : Level) : Except MergeError Level :=
  if !unchanged l r.target r.targetData then .error (.stale r.target)
  else if !unchanged l r.dropped r.droppedData then .error (.stale r.dropped)
  else
    let staged := quotient r.target r.dropped r.task r.sources l
    match staged.validate with
    | .error e => .error (.graph e)
    | .ok () => .ok staged

def abort (p : Pending) (l : Level) : Edited Unit :=
  { level := setFlag false p.target l, result := () }

/-- A merge that fails leaves the level as it was before it began. -/
def fail {α : Type} (p : Pending) (l : Level) (e : MergeError) : Edited (Except MergeError α) :=
  .refused (setFlag false p.target l) e

/-- Commits a merge: stores its task in a store of the state `s`, then replaces the level. -/
def commit {σ : Type} (append : Task → σ → Except StoreError Bool × σ) (r : Resolved) (s : σ)
    (l : Level) : Edited (Except MergeError Outcome × σ) :=
  match stage r l with
  | .error e =>
    let failed := fail r.toPending l e
    { failed with result := (failed.result, s) }
  | .ok staged =>
    match append r.task s with
    | (.error e, s) =>
      let failed := fail r.toPending l (.store e)
      { failed with result := (failed.result, s) }
    | (.ok _, s) =>
      { level := staged
        departure := some ⟨r.dropped, some r.target⟩
        result := (.ok {
          node := r.target
          removed := r.dropped
          task := r.task
          droppedEdges := (redirected r.target r.dropped l.edges).dropped }, s) }

inductive Ending
  | done (outcome : Outcome)
  | cancelled
  deriving Repr

/-- What a whole merge works with besides its level. -/
structure Setting (σ : Type) where
  config : Config := {}
  namer : Namer := noNamer
  hasClock : Bool := true
  /-- After how many milliseconds the merge is dropped if it still waits for its name. -/
  patience : Option Nat := none
  append : Task → σ → Except StoreError Bool × σ

/-- Whether a merge is dropped while it waits for its name. Without a clock there is no wait. -/
def Setting.dropsOut {σ : Type} (c : Setting σ) (p : Pending) : Bool :=
  let wait := if c.hasClock then (c.namer p.sources).elapsed c.config.namingTimeout else 0
  match c.patience with
  | some ms => 0 < wait && ms ≤ wait
  | none => false

def combine {σ : Type} (c : Setting σ) (target dropped : String) (tokens : TokenSupply) (s : σ)
    (l : Level) : Edited (Except MergeError Ending × TokenSupply × σ) :=
  let begun := start target dropped l
  match begun.result with
  | .error e => { level := begun.level, result := (.error e, tokens, s) }
  | .ok p =>
    if c.dropsOut p then
      { level := (abort p begun.level).level, result := (.ok .cancelled, tokens, s) }
    else
      let (r, tokens) := resolve c.config c.namer c.hasClock tokens p
      let e := commit c.append r s begun.level
      { e with result := (e.result.1.map .done, tokens, e.result.2) }

end Merge

end Workflow

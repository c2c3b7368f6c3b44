import Workflow.Layout.Rank
import Workflow.Graph.Shape

/-!
# Placing nodes

Ranks advance along one axis of the canvas, and nodes of one rank spread along the other. Nodes
that have a position keep it and block the slots near them. The others of their rank take the free
slots in the order of their ids.
-/

namespace Workflow

/-- Which way ranks advance. -/
inductive Layout.Direction
  | leftToRight
  | topToBottom
  deriving DecidableEq, Inhabited, Repr

structure Layout where
  direction : Layout.Direction := .leftToRight
  rankSpacing : Float := 250
  /-- The least distance between nodes of one rank. -/
  nodeSpacing : Float := 150
  origin : Position := ⟨50, 50⟩
  recurse : Bool := true
  deriving Inhabited, Repr

namespace Layout

namespace Direction

def nameOf : Direction → String
  | leftToRight => "leftToRight"
  | topToBottom => "topToBottom"

def codec : Codec Direction := .name [leftToRight, topToBottom] nameOf

end Direction

def record : Record Layout where
  typeName := "LayoutConfig"
  blank := {}
  fields := [
    .defaulted "direction" Direction.codec direction fun c v => { c with direction := v },
    .defaulted "rankSpacing" .float rankSpacing fun c v => { c with rankSpacing := v },
    .defaulted "nodeSpacing" .float nodeSpacing fun c v => { c with nodeSpacing := v },
    .defaulted "origin" Position.codec origin fun c v => { c with origin := v },
    .defaulted "recurseIntoSubflows" .bool recurse fun c v => { c with recurse := v }]

def codec : Codec Layout := record.codec

/-- What placing asks of the coordinates on an axis. -/
class Axis (α : Type) where
  /-- `origin + k * spacing` -/
  slot : (origin spacing : α) → (k : Nat) → α
  apart : (spacing a b : α) → Bool

instance : Axis Float where
  slot origin spacing k := origin + Float.ofNat k * spacing
  apart spacing a b := spacing ≤ (a - b).abs

/-- The first number from `k` on that is clear, among as many as the fuel says. -/
def firstClear (clear : Nat → Bool) : (fuel k : Nat) → Option Nat
  | 0, _ => none
  | fuel + 1, k => if clear k then some k else firstClear clear fuel (k + 1)

/-- Slots are numbered by words of 64 bits. -/
def slotCount : Nat := 0x10000000000000000

/-- The next `n` clear slots from number `k` on; none if the numbers run out. -/
def clearSlots (clear : Nat → Bool) : (n k : Nat) → Option (List Nat)
  | 0, _ => some []
  | n + 1, k => do
    let slot ← firstClear clear (slotCount - k) k
    let slots ← clearSlots clear n (slot + 1)
    return slot :: slots

section

variable {α : Type} [Axis α]

/-- Whether a slot keeps its distance from everything that is there. -/
def isClear (origin spacing : α) (occupied : List α) (k : Nat) : Bool :=
  occupied.all fun o => Axis.apart spacing o (Axis.slot origin spacing k)

/-- Coordinates for `n` nodes of one rank among the occupied ones. -/
def spread (origin spacing : α) (occupied : List α) (n : Nat) : Option (List α) :=
  (clearSlots (isClear origin spacing occupied) n 0).map fun slots =>
    slots.map (Axis.slot origin spacing)

end

def primary (c : Layout) (p : Position) : Float :=
  match c.direction with
  | .leftToRight => p.x
  | .topToBottom => p.y

def secondary (c : Layout) (p : Position) : Float :=
  match c.direction with
  | .leftToRight => p.y
  | .topToBottom => p.x

def position (c : Layout) (primary secondary : Float) : Position :=
  match c.direction with
  | .leftToRight => ⟨primary, secondary⟩
  | .topToBottom => ⟨secondary, primary⟩

/-- The node spacing, unless it is no positive number; then the default one. -/
def spacing (c : Layout) : Float :=
  if c.nodeSpacing.isFinite && 0 < c.nodeSpacing then c.nodeSpacing else ({} : Layout).nodeSpacing

/-- The coordinates that positioned nodes block. -/
def occupied (c : Layout) (nodes : List Node) : List Float :=
  nodes.filterMap fun n => (n.position.map c.secondary).filter (·.isFinite)

/-- The places of the nodes without a position, in the order of the ids of the nodes. -/
def pending (nodes : List (Node × Nat)) : List Nat :=
  ((nodes.filter fun (n, _) => n.position.isNone).mergeSort fun (a, _) (b, _) => !(b.id < a.id)).map
    (·.2)

/-- Positions for the nodes of one rank that have none, by the places of the nodes. -/
def placeRank (c : Layout) (rank : Nat) (nodes : List (Node × Nat)) :
    Option (List (Nat × Position)) := do
  let places := pending nodes
  let coordinates ←
    spread (c.secondary c.origin) c.spacing (c.occupied (nodes.map (·.1))) places.length
  let primary := Axis.slot (c.primary c.origin) c.rankSpacing rank
  return places.zip (coordinates.map (c.position primary))

/-- Positions for all nodes of a level that have none, by the places of the nodes. -/
def placements (c : Layout) (l : Level) : Option (List (Nat × Position)) := do
  let ranks := Rank.ofLevel l
  let ranked := l.nodes.zipIdx.zip ranks
  let placed ← ranks.eraseDups.mapM fun rank =>
    c.placeRank rank ((ranked.filter (·.2 == rank)).map (·.1))
  return placed.flatten

/-- Gives a position to every node of a level that has none, and tells how many there were. -/
def placeLevel (c : Layout) (l : Level) : Option (Level × Nat) := do
  let placed ← c.placements l
  let nodes := l.nodes.zipIdx.map fun (n, i) =>
    match placed.lookup i with
    | some p => { n with position := some p }
    | none => n
  return ({ l with nodes }, placed.length)

mutual

/-- Lays out a level and, if the layout says so, all levels inside it, and tells how many nodes
were placed. None if no slot is free for some node. -/
def apply (c : Layout) : Level → Option (Level × Nat)
  | ⟨nodes, edges⟩ => do
    let (nodes, inside) ← if c.recurse then applySubflows c nodes else some (nodes, 0)
    let (l, placed) ← c.placeLevel ⟨nodes, edges⟩
    return (l, placed + inside)

def applySubflows (c : Layout) : List Node → Option (List Node × Nat)
  | [] => some ([], 0)
  | ⟨id, kind, position, label, some ⟨task, enabled, combined, some sub, combining⟩⟩ :: ns => do
    let (sub, inside) ← apply c sub
    let (ns, placed) ← applySubflows c ns
    return (⟨id, kind, position, label, some ⟨task, enabled, combined, some sub, combining⟩⟩ :: ns,
      inside + placed)
  | n :: ns => do
    let (ns, placed) ← applySubflows c ns
    return (n :: ns, placed)

end

end Layout

end Workflow

/-!
# Paths

A path is a text whose pieces stand between slashes. A piece names an entry of the directory that
the pieces before it lead to; a blank piece and `.` stay there, and `..` leads one directory up.
What a path leads to hangs on the tree it is followed in: `a/../b` leads nowhere where there is no
directory `a`.
-/

namespace Workflow

/-- A path as a text, and the directory that it starts from unless its text starts with a slash. -/
structure FilePath where
  start : List String
  text : String
  deriving DecidableEq, Inhabited, Repr

namespace FilePath

def isIdle (piece : String) : Bool := piece == "" || piece == "."

/-- Pieces without those of a class at their end; the first one stays. -/
def trimEnd (unwanted : String → Bool) (pieces : List String) : List String :=
  pieces.take 1 ++ ((pieces.drop 1).reverse.dropWhile unwanted).reverse

def trimmed (pieces : List String) : List String := trimEnd isIdle pieces

/-- Pieces without the blank ones at their end, which are there if the path ends in a slash. -/
def unslashed (pieces : List String) : List String := trimEnd (· == "") pieces

def pieces (p : FilePath) : List String := (p.text.toList.splitOn '/').map String.ofList

/-- The names of the directory that the first piece is followed from. -/
def origin (p : FilePath) : List String := if p.text.startsWith "/" then [] else p.start

def follow (here : List String) (piece : String) : List String :=
  if isIdle piece then here else if piece == ".." then here.dropLast else here ++ [piece]

def name? (p : FilePath) : Option String :=
  (trimmed p.pieces).getLast?.filter fun n => !(isIdle n || n == "..")

/-- The pieces before the last one that is not idle. -/
def above (p : FilePath) : List String := trimmed (trimmed p.pieces).dropLast

/-- The path of what the last piece is in; it is blank for a piece of the start or of the root. -/
def parent (p : FilePath) : FilePath := { p with text := "/".intercalate p.above }

/-- The path next to this one with an ending added to its name, or inside of one without a name. -/
def sibling (p : FilePath) (ending : String) : FilePath :=
  let pieces :=
    match p.name? with
    | some name => p.above ++ [name ++ ending]
    | none => (if p.pieces.getLast? == some "" then p.pieces.dropLast else p.pieces) ++ [ending]
  { p with text := "/".intercalate pieces }

end FilePath

end Workflow

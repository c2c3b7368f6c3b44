import Workflow.CommandLine.Run

/-!
# The program

Reads what the paths among the arguments lead to into a tree, makes one run on it, prints the
report, and carries what the run has changed in the tree over to the files outside.
-/

namespace Workflow.Program

open CommandLine

/-- The path outside of a place in the tree. -/
def outside (place : List String) : String := "/" ++ "/".intercalate place

def readEntry (path : String) : IO (Option Entry) := do
  try
    let bytes ← IO.FS.readBinFile path
    match String.fromUTF8? bytes with
    | some text => return some (.file text)
    | none => return some .binary
  catch _ =>
    try
      let _ ← IO.FS.Handle.mk path .read
      return some .directory
    catch _ => return none

/-- The places that pieces of a path pass through. -/
def places (here : List String) : List String → List (List String)
  | [] => [here]
  | piece :: rest => here :: places (FilePath.follow here piece) rest

/-- The tree of what the options name, and of the files next to the store. -/
def loadTree (directory : List String) (o : Options) : IO Files := do
  let store := o.store.toList.map (FilePath.mk directory)
  let besides := store.flatMap fun p => [p.sibling ".lock", p.sibling ".tmp"]
  let paths := [⟨directory, o.registry⟩, ⟨directory, o.catalog⟩] ++ store ++ besides
  let mut fs : Files := {}
  for place in paths.flatMap fun p => places [] (p.origin ++ p.pieces) do
    if (fs.content? place).isNone then
      if let some e ← readEntry (outside place) then
        fs := fs.put place e
  return fs

/-- Writes a file so that nobody sees a part of its text. -/
def replaceFile (path text : String) : IO Unit := do
  let temporary := path ++ ".new"
  IO.FS.writeFile temporary text
  IO.FS.rename temporary path

/-- Makes the files outside what they are in the tree after a run, directories before what is in
them. -/
def saveChanges (before after : Files) : IO Unit := do
  for (place, e) in after.entries.toList.mergeSort fun a b => a.1.length ≤ b.1.length do
    if before.content? place != some e then
      match e with
      | .directory => IO.FS.createDir (outside place)
      | .file text => replaceFile (outside place) text
      | .binary => pure ()
  for (place, _) in before.entries.toList do
    if (after.content? place).isNone then
      IO.FS.removeFile (outside place)

/-- Tokens of 128 random bits, in hexadecimal. -/
def randomTokens : IO TokenSupply := do
  let bytes ← IO.getRandomBytes 16
  let seed := bytes.foldl (fun n b => n * 256 + b.toNat) 0
  return { token := fun k =>
    let h := Text.hex ((seed + k) % Decimal.pow2 128)
    String.ofList (List.replicate (32 - h.length) '0' ++ h) }

def run (arguments : List String) : IO UInt32 := do
  let tokens ← randomTokens
  let directory := ((← IO.currentDir).toString.splitOn "/").filter (· != "")
  let before ←
    match parse arguments with
    | .ok o => loadTree directory o
    | .error _ => pure {}
  let (report, after) := CommandLine.run tokens before directory arguments
  saveChanges before after
  (← IO.getStderr).putStr report.stderr
  (← IO.getStdout).putStr report.stdout
  return report.code.toUInt32

end Workflow.Program

def main (arguments : List String) : IO UInt32 :=
  Workflow.Program.run arguments

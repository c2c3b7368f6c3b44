import Workflow.Json.Basic
import Workflow.Decimal.Numeral

/-!
# Reading JSON texts

The grammar is the strict one: no comments, no trailing commas, no raw control characters in
strings. A text is turned into the tree of the part of it that is JSON; what comes after the first
fault is not looked at.
-/

namespace Workflow.Json

/-- What reading one value leaves: its tree, and the text behind it unless the text broke off. -/
structure Scan where
  value : Json
  rest : Option (List Char)

def Scan.stop : Scan := ⟨.broken, none⟩

def isSpace (c : Char) : Bool :=
  c == ' ' || c == '\n' || c == '\t' || c == '\r'

def skipSpace (cs : List Char) : List Char :=
  cs.dropWhile isSpace

def hexDigit? (c : Char) : Option Nat :=
  if c.isDigit then some (c.toNat - 48)
  else if 'a' ≤ c && c ≤ 'f' then some (c.toNat - 87)
  else if 'A' ≤ c && c ≤ 'F' then some (c.toNat - 55)
  else none

/-- The unit that four hexadecimal digits stand for. -/
def hexUnit? (a b c d : Char) : Option Nat := do
  return (((← hexDigit? a) * 16 + (← hexDigit? b)) * 16 + (← hexDigit? c)) * 16 + (← hexDigit? d)

def simpleEscape? : Char → Option Char
  | '"' => some '"'
  | '\\' => some '\\'
  | '/' => some '/'
  | 'b' => some '\x08'
  | 'f' => some '\x0c'
  | 'n' => some '\n'
  | 'r' => some '\r'
  | 't' => some '\t'
  | _ => none

/-- One piece of the inside of a string. -/
inductive Piece
  | char (c : Char)
  /-- Half of a surrogate pair. -/
  | half
  deriving DecidableEq, Repr

def isHighSurrogate (u : Nat) : Bool := 0xD800 ≤ u && u < 0xDC00
def isLowSurrogate (u : Nat) : Bool := 0xDC00 ≤ u && u < 0xE000

/-- Reads a string up to its closing quote. -/
def scanString (acc : List Piece) : List Char → Option (List Piece × List Char)
  | [] => none
  | '"' :: cs => some (acc.reverse, cs)
  | '\\' :: 'u' :: a :: b :: c :: d :: '\\' :: 'u' :: a' :: b' :: c' :: d' :: cs =>
    match hexUnit? a b c d, hexUnit? a' b' c' d' with
    | some u, some v =>
      if isHighSurrogate u && isLowSurrogate v then
        let n := 0x10000 + (u - 0xD800) * 0x400 + (v - 0xDC00)
        scanString (.char (Char.ofNat n) :: acc) cs
      else
        let piece := if isHighSurrogate u || isLowSurrogate u then .half else .char (Char.ofNat u)
        scanString (piece :: acc) ('\\' :: 'u' :: a' :: b' :: c' :: d' :: cs)
    | _, _ => none
  | '\\' :: 'u' :: a :: b :: c :: d :: cs =>
    match hexUnit? a b c d with
    | some u =>
      let piece := if isHighSurrogate u || isLowSurrogate u then .half else .char (Char.ofNat u)
      scanString (piece :: acc) cs
    | none => none
  | '\\' :: c :: cs =>
    match simpleEscape? c with
    | some e => scanString (.char e :: acc) cs
    | none => none
  | c :: cs => if c.toNat < 0x20 then none else scanString (.char c :: acc) cs

def Piece.char? : Piece → Option Char
  | char c => some c
  | half => none

/-- The string of its pieces; a half surrogate pair makes it one that can only be skipped. -/
def ofPieces (ps : List Piece) : Json :=
  let s := str (String.ofList (ps.filterMap Piece.char?))
  if ps.contains .half then unreadable s else s

def ofKey (ps : List Piece) (value : Json) : String × Json :=
  if ps.contains .half then ("", unkeyed value)
  else (String.ofList (ps.filterMap Piece.char?), value)

def noField : String × Json := ("", unkeyed broken)

def digitValue (c : Char) : Nat := c.toNat - 48

/-- The digits at the start of a text, and what follows them. -/
def scanDigits (cs : List Char) : List Nat × List Char :=
  ((cs.takeWhile Char.isDigit).map digitValue, cs.dropWhile Char.isDigit)

/-- A whole part: a zero alone, or digits that do not start with zero. -/
def scanWhole (cs : List Char) : Option (List Nat × List Char) :=
  match scanDigits cs with
  | ([], _) => none
  | (0 :: _ :: _, _) => none
  | found => some found

def scanFraction : List Char → Option (Option (List Nat) × List Char)
  | '.' :: cs =>
    match scanDigits cs with
    | ([], _) => none
    | (ds, rest) => some (some ds, rest)
  | cs => some (none, cs)

def ofDigits (ds : List Nat) : Nat :=
  ds.foldl (fun a d => a * 10 + d) 0

/-- The digits of an exponent, behind its sign. -/
def scanPower (negative : Bool) (cs : List Char) : Option (Option Int × List Char) :=
  match scanDigits cs with
  | ([], _) => none
  | (ds, rest) =>
    let n : Int := ofDigits ds
    some (some (if negative then -n else n), rest)

def scanExponent : List Char → Option (Option Int × List Char)
  | c :: cs =>
    if c == 'e' || c == 'E' then
      match cs with
      | '+' :: cs => scanPower false cs
      | '-' :: cs => scanPower true cs
      | cs => scanPower false cs
    else some (none, c :: cs)
  | [] => some (none, [])

def scanNumeral (negative : Bool) (cs : List Char) : Option (Decimal.Numeral × List Char) := do
  let (whole, cs) ← scanWhole cs
  let (fraction, cs) ← scanFraction cs
  let (exponent, cs) ← scanExponent cs
  return (⟨negative, whole, fraction, exponent⟩, cs)

/-- The value of a numeral: a whole number if it is written as one and fits, else a float. -/
def ofNumeral (n : Decimal.Numeral) : Json :=
  match n.toInt? with
  | some i => int i
  | none =>
    match n.toFloat? with
    | some x => float x
    | none => unreadable (float 0)

def scanNumber (negative : Bool) (cs : List Char) : Scan :=
  match scanNumeral negative cs with
  | some (n, rest) => ⟨ofNumeral n, some rest⟩
  | none => .stop

/-- Containers may be nested this deep. -/
def depthLimit : Nat := 127

def limitDepth (depth : Nat) (j : Json) : Json :=
  if depth < depthLimit then j else unreadable j

mutual

/-- Reads one value inside `depth` containers. The fuel bounds the calls in one another, of which
each second one takes a character. -/
def scanValue (depth : Nat) : Nat → List Char → Scan
  | 0, _ => .stop
  | fuel + 1, cs =>
    match skipSpace cs with
    | 'n' :: 'u' :: 'l' :: 'l' :: cs => ⟨null, some cs⟩
    | 't' :: 'r' :: 'u' :: 'e' :: cs => ⟨bool true, some cs⟩
    | 'f' :: 'a' :: 'l' :: 's' :: 'e' :: cs => ⟨bool false, some cs⟩
    | '"' :: cs =>
      match scanString [] cs with
      | some (ps, rest) => ⟨ofPieces ps, some rest⟩
      | none => .stop
    | '[' :: cs =>
      let (items, rest) :=
        match skipSpace cs with
        | ']' :: cs => ([], some cs)
        | cs => scanItems (depth + 1) fuel cs
      ⟨limitDepth depth (arr items), rest⟩
    | '\x7b' :: cs =>
      let (fields, rest) :=
        match skipSpace cs with
        | '\x7d' :: cs => ([], some cs)
        | cs => scanFields (depth + 1) fuel cs
      ⟨limitDepth depth (obj fields), rest⟩
    | '-' :: cs => scanNumber true cs
    | cs => scanNumber false cs

/-- Reads the items of a list up to its bracket. -/
def scanItems (depth : Nat) : Nat → List Char → List Json × Option (List Char)
  | 0, _ => ([broken], none)
  | fuel + 1, cs =>
    let item := scanValue depth fuel cs
    match item.rest.map skipSpace with
    | none => ([item.value], none)
    | some (',' :: cs) =>
      let (items, rest) := scanItems depth fuel cs
      (item.value :: items, rest)
    | some (']' :: cs) => ([item.value], some cs)
    | some _ => ([item.value, broken], none)

/-- Reads the fields of an object up to its brace. -/
def scanFields (depth : Nat) : Nat → List Char → List (String × Json) × Option (List Char)
  | 0, _ => ([noField], none)
  | fuel + 1, cs =>
    match skipSpace cs with
    | '"' :: cs =>
      match scanString [] cs with
      | none => ([noField], none)
      | some (ps, cs) =>
        match skipSpace cs with
        | ':' :: cs =>
          let value := scanValue depth fuel cs
          let field := ofKey ps value.value
          match value.rest.map skipSpace with
          | none => ([field], none)
          | some (',' :: cs) =>
            let (fields, rest) := scanFields depth fuel cs
            (field :: fields, rest)
          | some ('\x7d' :: cs) => ([field], some cs)
          | some _ => ([field, noField], none)
        | _ => ([ofKey ps broken], none)
    | _ => ([noField], none)

end

/-- A whole text: the tree of its value, and whether nothing but white space follows it. -/
structure Document where
  value : Json
  ended : Bool

def Document.ofText (text : String) : Document :=
  let cs := text.toList
  let scan := scanValue 0 (2 * cs.length + 2) cs
  ⟨scan.value, scan.rest.any fun rest => (skipSpace rest).isEmpty⟩

end Workflow.Json

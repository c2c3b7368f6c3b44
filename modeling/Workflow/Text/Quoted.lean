import Workflow.Text.Unprintable

/-!
# Quoted text in messages

How a message shows a text it complains about: between double quotes, with everything that would
not be seen on a line of its own written as an escape.
-/

namespace Workflow.Text

/-- Whether a message shows `c` by its code point. -/
def isUnprintable (c : Char) : Bool :=
  let n := c.toNat
  n < 0x20 || n == 0x7F || unprintableRanges.any fun (first, last) => first ≤ n && n ≤ last

/-- `n` in lower-case hexadecimal digits, without leading zeros. -/
def hex (n : Nat) : List Char :=
  Nat.toDigits 16 n

def quotedChar (c : Char) : List Char :=
  if c == '"' then ['\\', '"']
  else if c == '\\' then ['\\', '\\']
  else if c == '\t' then ['\\', 't']
  else if c == '\n' then ['\\', 'n']
  else if c == '\r' then ['\\', 'r']
  else if c == '\x00' then ['\\', '0']
  else if isUnprintable c then ['\\', 'u', '\x7b'] ++ hex c.toNat ++ ['\x7d']
  else [c]

def quoted (s : String) : String :=
  String.ofList ('"' :: s.toList.flatMap quotedChar ++ ['"'])

end Workflow.Text

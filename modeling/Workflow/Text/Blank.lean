/-!
# White space

The characters of Unicode's `White_Space` property, and trimming by a class of characters.
-/

namespace Workflow.Text

/-- The `White_Space` property: tab to carriage return, space, next line, no-break space, and the
spaces and separators of the general punctuation and ideographic blocks. -/
def isBlank (c : Char) : Bool :=
  let n := c.toNat
  (9 ≤ n && n ≤ 13) || n == 0x20 || n == 0x85 || n == 0xA0 || n == 0x1680 ||
    (0x2000 ≤ n && n ≤ 0x200A) || n == 0x2028 || n == 0x2029 || n == 0x202F || n == 0x205F ||
    n == 0x3000

/-- `cs` without the characters of the class `p` at both ends. -/
def trimBy (p : Char → Bool) (cs : List Char) : List Char :=
  ((cs.dropWhile p).reverse.dropWhile p).reverse

def trim (s : String) : String :=
  String.ofList (trimBy isBlank s.toList)

/-- Whether `s` is empty or all white space. -/
def allBlank (s : String) : Bool :=
  s.toList.all isBlank

end Workflow.Text

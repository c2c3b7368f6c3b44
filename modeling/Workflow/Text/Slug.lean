import Workflow.Text.Blank

/-!
# Slugs

The part of an id that is made from a category: its letters and digits in lower case, with one
dash for every gap between two runs of them.
-/

namespace Workflow.Text

/-- What is written of a category when `c` is its next character. A letter or digit is written in
lower case, and anything else as a dash, unless a dash was written last. -/
def slugPush (written : Array Char) (c : Char) : Array Char :=
  if c.isAlphanum then written.push c.toLower
  else if written.back? = some '-' then written
  else written.push '-'

/-- The slug of a category, without the dashes that were written for its ends. A category without an
ASCII letter or digit has the slug `task`. -/
def slug (category : String) : String :=
  match trimBy (· == '-') (category.toList.foldl slugPush #[]).toList with
  | [] => "task"
  | cs => String.ofList cs

end Workflow.Text

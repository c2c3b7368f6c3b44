import Workflow.Text.Slug

/-!
# Ids that are free

Ids of edges and of boundary nodes are made by numbering; ids of new nodes and tasks carry a token
from a supply of tokens.
-/

namespace Workflow

/-- `base` if it is free, else the first free one of `base` with the mark and the numbers from 2.
One more number than there are taken ids is enough. -/
def freeId (taken : List String) (base mark : String) : String :=
  if base ∈ taken then
    let numbered := (List.range (taken.length + 1)).map fun k => base ++ mark ++ toString (k + 2)
    (numbered.find? (· ∉ taken)).getD base
  else base

def edgeId (taken : List String) (source target : String) : String :=
  freeId taken (source ++ "->" ++ target) "#"

/-- An endless supply of tokens, of which `drawn` have been used. -/
structure TokenSupply where
  token : Nat → String
  drawn : Nat := 0

namespace TokenSupply

/-- The id made of a stem and the token at a place behind the used ones. -/
def idAt (s : TokenSupply) (stem : String) (k : Nat) : String :=
  stem ++ "-" ++ s.token (s.drawn + k)

/-- Draws tokens until the id made of the stem and the token is free. If the tokens are distinct,
one more than there are taken ids is enough. -/
def freshId (s : TokenSupply) (stem : String) (taken : List String) : String × TokenSupply :=
  let k := ((List.range taken.length).find? fun k => s.idAt stem k ∉ taken).getD taken.length
  (s.idAt stem k, { s with drawn := s.drawn + k + 1 })

def freshNodeId (s : TokenSupply) (category : String) (taken : List String) :
    String × TokenSupply :=
  s.freshId (Text.slug category) taken

def freshTaskId (s : TokenSupply) : String × TokenSupply :=
  s.freshId "custom" []

end TokenSupply

end Workflow

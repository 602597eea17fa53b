/-! How much a name resembles what was asked for. -/

namespace StyleFunctions.Similarity

def isInfix (part whole : List Char) : Bool :=
  match whole with
  | [] => part.isEmpty
  | c :: cs => part.isPrefixOf (c :: cs) || isInfix part cs

/-- One of the two names stands in the other: best at its beginning, next anywhere, last the other
way round. -/
def overlap (query candidate : List Char) : Nat :=
  if query.isPrefixOf candidate then 100
  else if isInfix query candidate then 50
  else if isInfix candidate query then 30
  else 0

/-- How many different characters two names share. -/
def shared (query candidate : List Char) : Nat :=
  (query.eraseDups.filter fun c => candidate.contains c).length

def distance (m n : Nat) : Nat := (m - n) + (n - m)

/-- Zero when two names have nothing in common. Otherwise names of nearly the same size, in bytes,
gain a little. -/
def score (query candidate : String) : Nat :=
  let base := overlap query.toList candidate.toList + 2 * shared query.toList candidate.toList
  let apart := distance query.utf8ByteSize candidate.utf8ByteSize
  if apart < 5 ∧ 0 < base then base + (5 - apart) else base

/-- The higher score comes first, and of equal scores the smaller name. -/
def precedes (query : String) (s t : String) : Bool :=
  score query t < score query s || (score query s == score query t && decide (s ≤ t))

/-- The names that have something in common with the query, the best first. -/
def ranking (query : String) (names : List String) : List String :=
  (names.filter fun name => 0 < score query name).mergeSort (precedes query)

end StyleFunctions.Similarity

import StyleFunctions.Registry.Basic
import StyleFunctions.Registry.Similarity

/-! Help pages and listings. -/

namespace StyleFunctions

/-- The answer to a question for help. -/
inductive Help where
  | function (signature : Signature)
  | unknown (name : String) (similar : List String)
  /-- The names of all functions by category. -/
  | overview (categories : List (String × List String))
  deriving Repr

namespace Registry

variable {α : Type}

/-- The signatures of all functions, or of those of one category, in order of their names. -/
def list (r : Registry α) (category : Option String) : List Signature :=
  ((r.builtins.map Builtin.signature).filter fun s => category.all fun c => s.category == c).mergeSort
    fun s t => decide (s.name ≤ t.name)

/-- The names to suggest for one that is not in the table: at most five. -/
def suggestions (r : Registry α) (name : String) : List String :=
  (Similarity.ranking name r.keys).take 5

/-- Adds a name to the section of its category. The sections are kept in ascending order. -/
def file (category name : String) : List (String × List String) → List (String × List String)
  | [] => [(category, [name])]
  | (c, names) :: sections =>
    if category < c then (category, [name]) :: (c, names) :: sections
    else if c < category then (c, names) :: file category name sections
    else (c, names ++ [name]) :: sections

/-- The names of entries under the categories of their functions, as they come. -/
def sections (entries : List (String × Builtin α)) : List (String × List String) :=
  entries.foldl (fun filed entry => file entry.2.signature.category entry.1 filed) []

def overview (r : Registry α) : List (String × List String) :=
  (sections r.entries).map fun (category, names) => (category, ascending names)

/-- Help on one function, or on all without a name. -/
def help (r : Registry α) : Option String → Help
  | none => .overview r.overview
  | some name =>
    match r.signature? name with
    | some signature => .function signature
    | none => .unknown name (r.suggestions name)

end Registry

end StyleFunctions

import StyleFunctions.Arguments
import StyleFunctions.Color.Luma
import StyleFunctions.Quantity.Conversion

/-! The smallest and the largest of several values. -/

namespace StyleFunctions

inductive Extreme where
  | least
  | greatest
  deriving DecidableEq, Repr

/-- Values of one group can be compared. -/
inductive ComparisonGroup where
  | string
  | color
  /-- Numbers whose unit measures a known quantity. -/
  | quantity (q : Quantity)
  /-- All other numbers, whatever their unit. -/
  | number
  deriving DecidableEq, Repr

/-- What values are compared by. -/
inductive SortKey (α : Type) where
  | number (value : α)
  | text (content : String)
  deriving Repr

namespace SortKey

variable {α : Type} [Scalar α]

def isNaN : SortKey α → Bool
  | .number x => Scalar.isNaN x
  | .text _ => false

/-- Keys of different kinds belong to different groups and never meet. -/
def order : SortKey α → SortKey α → Ordering
  | .number x, .number y => Scalar.order x y
  | .text s, .text t => compare s t
  | _, _ => .eq

/-- The order in which keys come up for an extreme. A NaN comes last for both of them. -/
def rank (extreme : Extreme) (k l : SortKey α) : Ordering :=
  match k.isNaN, l.isNaN with
  | true, true => .eq
  | true, false => .gt
  | false, true => .lt
  | false, false =>
    match extreme with
    | .least => k.order l
    | .greatest => l.order k

end SortKey

namespace Token

variable {α : Type} [Elementary α]

/-- The group and the key of a value: the text of a string, the luma of a color, a number in the
standard unit of its quantity. A call that was left as written has none. -/
def classify? : Token α → Option (ComparisonGroup × SortKey α)
  | .string t => some (.string, .text t.content)
  | .color c => some (.color, .number c.luma)
  | .number d =>
    match Quantity.ofUnit? d.unit with
    | some q => some (.quantity q, .number (convert d.value d.unit q.defaultUnit).value)
    | none => some (.number, .number d.value)
  | .call _ _ => none

end Token

namespace Extreme

variable {α : Type} [Elementary α]

/-- A value with its group and key. -/
structure Candidate (α : Type) where
  group : ComparisonGroup
  key : SortKey α
  token : Token α

def candidate? (t : Token α) : Option (Candidate α) :=
  t.classify?.map fun (group, key) => ⟨group, key, t⟩

/-- The groups of several candidates, each once. -/
def groups (cs : List (Candidate α)) : List ComparisonGroup :=
  (cs.map Candidate.group).eraseDups

/-- The candidates as they come up. The sort is stable: equal ones stay in the order in which they
were given. -/
def ranked (extreme : Extreme) (cs : List (Candidate α)) : List (Candidate α) :=
  cs.mergeSort fun c d => (c.key.rank extreme d.key).isLE

/-- The extreme one of several values, as it was given; of equal ones the first. One value alone
need not be comparable, and values that cannot be compared leave the call as written. -/
def select (extreme : Extreme) : List (Token α) → Value α
  | [] => .error Fault.noArguments.report
  | [t] => .token t
  | ts =>
    match ts.mapM candidate? with
    | none => .unresolved
    | some cs =>
      if 1 < (groups cs).length then .unresolved
      else
        match (extreme.ranked cs).head? with
        | some c => .token c.token
        | none => .unresolved

end Extreme

namespace Library

variable {α : Type} [Elementary α]

def compared : Parameter := .required "values..." "Any" "Values of one comparison group"

def minSignature : Signature where
  name := "min"
  description := "Smallest argument, keeping its original unit"
  usage := "min(a, b, ...)"
  parameters := [compared]
  returns := "Any"
  examples := ["min(1in, 10mm) → 10mm", "min(3px, 2s) → left unevaluated"]
  category := "math"
  related := ["max"]

def maxSignature : Signature where
  name := "max"
  description := "Largest argument, keeping its original unit"
  usage := "max(a, b, ...)"
  parameters := [compared]
  returns := "Any"
  examples := ["max(1s, 1500ms) → 1500ms"]
  category := "math"
  related := ["min"]

def extremes : List (Builtin α) :=
  [⟨minSignature, fun _ arguments => Extreme.least.select arguments⟩,
   ⟨maxSignature, fun _ arguments => Extreme.greatest.select arguments⟩]

end Library

end StyleFunctions

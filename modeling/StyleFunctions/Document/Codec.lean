import StyleFunctions.Document.Basic
import StyleFunctions.Value

/-!
Tokens, values and reports as documents. The readers and writers are derived from the types, and this
is what is assumed of the derivation:
- A record is an object with a member for each field. Members that are not known are ignored, and a
  known one that occurs twice is refused. A field with a default may be missing, an optional one may
  also be null, and a field that is skipped when it is empty is not written then.
- What has several shapes is an object of two members: `type` says which shape it is, `value` holds
  its content. A shape without content has no `value`, or a null one.
- Shapes that are only names are texts.
-/

namespace StyleFunctions

namespace Document

variable {α : Type}

/-- Documents have no infinite numbers and no NaN. -/
def ofNumber [Scalar α] (x : α) : Document α := if Scalar.isFinite x then .number x else .null

def tagged (type : String) (content : Document α) : Document α :=
  .object [("type", .text type), ("value", content)]

def tag (type : String) : Document α := .object [("type", .text type)]

/-- The name of one of several alternatives: a text, or an object with that one member, which is
null. -/
def alternative? : Document α → Option String
  | .text s => some s
  | .object [(name, .null)] => some name
  | _ => none

def type? (members : List (String × Document α)) : Option String :=
  (member? "type" members).bind alternative?

def numberMember? (name : String) (members : List (String × Document α)) : Option α :=
  (member? name members).bind number?

def textMember? (name : String) (members : List (String × Document α)) : Option String :=
  (member? name members).bind text?

/-- A member that may be missing or null. -/
def optionalMember? {β : Type} (read : Document α → Option β) (name : String)
    (members : List (String × Document α)) : Option (Option β) :=
  match member? name members with
  | none | some .null => some none
  | some d => (read d).map some

/-- A member that may be missing, but is not null. -/
def memberOr? {β : Type} (read : Document α → Option β) (default : β) (name : String)
    (members : List (String × Document α)) : Option β :=
  match member? name members with
  | none => some default
  | some d => read d

def character? : Document α → Option Char
  | .text s =>
    match s.toList with
    | [c] => some c
    | _ => none
  | _ => none

end Document

open Document

variable {α : Type}

namespace Dimension

def document [Scalar α] (d : Dimension α) : Document α :=
  .object [("value", ofNumber d.value), ("unit", .text d.unit)]

def ofDocument? : Document α → Option (Dimension α)
  | .object members =>
    if distinct ["value", "unit"] members then do
      let value ← numberMember? "value" members
      let unit ← memberOr? text? "" "unit" members
      return ⟨value, unit⟩
    else none
  | _ => none

end Dimension

namespace Rgba

def document [Scalar α] (c : Rgba α) : Document α :=
  .object
    [("r", ofNumber c.red), ("g", ofNumber c.green), ("b", ofNumber c.blue),
     ("a", ofNumber c.alpha)]

def ofDocument? : Document α → Option (Rgba α)
  | .object members =>
    if distinct ["r", "g", "b", "a"] members then do
      let red ← numberMember? "r" members
      let green ← numberMember? "g" members
      let blue ← numberMember? "b" members
      let alpha ← numberMember? "a" members
      return ⟨red, green, blue, alpha⟩
    else none
  | _ => none

end Rgba

namespace Text

def document (t : Text) : Document α :=
  .object
    [("text", .text t.content),
     ("quote", (t.quote.map fun c => .text (String.singleton c)).getD .null)]

def ofDocument? : Document α → Option Text
  | .object members =>
    if distinct ["text", "quote"] members then do
      let content ← textMember? "text" members
      let quote ← optionalMember? character? "quote" members
      return ⟨content, quote⟩
    else none
  | _ => none

end Text

namespace TokenKind

def document (k : TokenKind) : Document α := .text k.name

def ofDocument? (d : Document α) : Option TokenKind :=
  d.alternative?.bind fun name => all.find? fun k => k.name == name

end TokenKind

namespace Severity

def document (s : Severity) : Document α := .text s.name

def ofDocument? (d : Document α) : Option Severity :=
  d.alternative?.bind fun name => [Severity.error, .fatal].find? fun s => s.name == name

end Severity

namespace Report

/-- A missing suggestion and an empty list of notes are not written. -/
def document (r : Report) : Document α :=
  .object
    ([("code", .text r.code), ("message", .text r.message), ("severity", r.severity.document)] ++
      (r.suggestion.map fun s => ("suggestion", .text s)).toList ++
      if r.notes.isEmpty then [] else [("notes", .texts r.notes)])

def ofDocument? : Document α → Option Report
  | .object members =>
    if distinct ["code", "message", "suggestion", "notes", "severity"] members then do
      let code ← textMember? "code" members
      let message ← textMember? "message" members
      let suggestion ← optionalMember? text? "suggestion" members
      let notes ← memberOr? textList? [] "notes" members
      let severity ← (member? "severity" members).bind Severity.ofDocument?
      return ⟨code, message, suggestion, notes, severity⟩
    else none
  | _ => none

end Report

namespace Token

mutual

def document [Scalar α] : Token α → Document α
  | .number d => tagged "Number" d.document
  | .color c => tagged "Color" c.document
  | .string t => tagged "String" t.document
  | .call name arguments =>
    tagged "FunctionCall" (.object [("name", .text name), ("args", .list (documents arguments))])

def documents [Scalar α] : List (Token α) → List (Document α)
  | [] => []
  | t :: ts => document t :: documents ts

end

mutual

def ofDocument? : Document α → Option (Token α)
  | .object members =>
    if distinct ["type", "value"] members then
      match type? members with
      | some "Number" => ((member? "value" members).bind Dimension.ofDocument?).map .number
      | some "Color" => ((member? "value" members).bind Rgba.ofDocument?).map .color
      | some "String" => ((member? "value" members).bind Text.ofDocument?).map .string
      | some "FunctionCall" => callContent? members
      | _ => none
    else none
  | _ => none

/-- Reads the call in the member `value`. -/
def callContent? : List (String × Document α) → Option (Token α)
  | [] => none
  | (name, d) :: members => if "value" == name then callOf? d else callContent? members

def callOf? : Document α → Option (Token α)
  | .object members =>
    if distinct ["name", "args"] members then do
      let name ← textMember? "name" members
      let arguments ← callArguments? members
      return .call name arguments
    else none
  | _ => none

/-- Reads the tokens in the member `args`. -/
def callArguments? : List (String × Document α) → Option (List (Token α))
  | [] => none
  | (name, d) :: members => if "args" == name then listOf? d else callArguments? members

def listOf? : Document α → Option (List (Token α))
  | .list items => ofDocuments? items
  | _ => none

def ofDocuments? : List (Document α) → Option (List (Token α))
  | [] => some []
  | d :: ds => do
    let t ← ofDocument? d
    let ts ← ofDocuments? ds
    return t :: ts

end

end Token

namespace Value

def document [Scalar α] : Value α → Document α
  | .token t => tagged "Token" t.document
  | .bool b => tagged "Bool" (.bool b)
  | .unresolved => tag "Unresolved"
  | .undefined => tag "Undefined"
  | .error r => tagged "Error" r.document

/-- A shape without content has no member for it, or a null one. -/
def hasNoContent (members : List (String × Document α)) : Bool :=
  match member? "value" members with
  | none | some .null => true
  | _ => false

def ofDocument? : Document α → Option (Value α)
  | .object members =>
    if distinct ["type", "value"] members then
      match type? members with
      | some "Token" => ((member? "value" members).bind Token.ofDocument?).map .token
      | some "Bool" => ((member? "value" members).bind Document.bool?).map .bool
      | some "Unresolved" => if hasNoContent members then some .unresolved else none
      | some "Undefined" => if hasNoContent members then some .undefined else none
      | some "Error" => ((member? "value" members).bind Report.ofDocument?).map .error
      | _ => none
    else none
  | _ => none

end Value

end StyleFunctions

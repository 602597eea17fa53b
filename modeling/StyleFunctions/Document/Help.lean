import StyleFunctions.Document.Basic
import StyleFunctions.Registry.Help

/-! Signatures, help pages and listings as documents. -/

namespace StyleFunctions

variable {α : Type}

def Parameter.document (p : Parameter) : Document α :=
  .object
    ([("name", .text p.name), ("typ", .text p.type), ("description", .text p.description),
      ("optional", .bool p.isOptional)] ++
      (p.fallback.map fun s => ("default", .text s)).toList)

namespace Signature

def documentMembers (s : Signature) : List (String × Document α) :=
  [("name", .text s.name), ("description", .text s.description), ("usage", .text s.usage),
   ("args", .list (s.parameters.map Parameter.document)), ("returns", .text s.returns),
   ("examples", .texts s.examples), ("category", .text s.category), ("related", .texts s.related)]

def document (s : Signature) : Document α := .object s.documentMembers

/-- The line of a signature in a listing. -/
def entryDocument (s : Signature) : Document α :=
  .object
    [("name", .text s.name), ("description", .text s.description), ("usage", .text s.usage),
     ("category", .text s.category)]

end Signature

def Help.document : Help → Document α
  | .function s => .object (("type", .text "function") :: s.documentMembers)
  | .unknown name similar =>
    .object [("error", .text ("No function named '" ++ name ++ "'")), ("similar", .texts similar)]
  | .overview categories =>
    .object
      [("functions", .object (categories.map fun (category, names) => (category, .texts names))),
       ("usage", .text "Call help('function_name') for detailed help.")]

namespace Registry

def listDocument (r : Registry α) (category : Option String) : Document α :=
  .list ((r.list category).map Signature.entryDocument)

end Registry

end StyleFunctions

import Typings.Declaration.Basic

/-!
# Declarations written down directly

Nodes for declarations that no text was read for.  Functions and variables carry their
own text.  An interface gets a source of its own, so that members can be put into it.
-/

namespace Typings
namespace Node

section Made

def exportedFunction (name : Text) (params : List Text) (result : Option Text) : Node :=
  let signature : Signature := ⟨none, params, result⟩
  { Node.made (.function signature) name
      ("export function ".toList ++ signature.methodText name) with
    exported := true }

def exportedVariable (name : Text) (type : Option Text) : Node :=
  let ascription :=
    match type with
    | some type => ": ".toList ++ type
    | none => []
  { Node.made (.variable type) name
      ("export declare const ".toList ++ name ++ ascription ++ [';']) with
    exported := true }

end Made

section Interfaces

/-- The text in front of a method, and the method. -/
def methodPieces (name : Text) : Text × Text :=
  ('\n' :: List.replicate 4 ' ', name ++ "(): void;".toList)

/-- The text of an interface up to and with its opening brace. -/
def interfaceHead (name : Text) : Text :=
  "interface ".toList ++ name ++ [' ', '\x7b']

def interfaceText (name : Text) (methods : List Text) : Text :=
  interfaceHead name ++
    methods.flatMap (fun method => (methodPieces method).1 ++ (methodPieces method).2) ++
    ['\n', '\x7d']

/-- The nodes of the methods whose text starts at a position of `source`. -/
def methodNodes (source : SourceText) (parent : Text) : Nat → List Text → List Node
  | _, [] => []
  | position, method :: rest =>
      let start := position + (methodPieces method).1.length
      let stop := start + (methodPieces method).2.length
      { kind := .member
        name := some method
        parent := some parent
        exported := false
        doc := none
        children := []
        origin := .placed ⟨source, ⟨position, start⟩, none, ⟨start, stop⟩, none⟩ } ::
        methodNodes source parent stop rest

/-- An interface with a method without parameters for each name, from a reading of its
own. -/
def interfaceOfMethods (reading : Nat) (name : Text) (methods : List Text) : Node :=
  let source : SourceText := ⟨reading, interfaceText name methods⟩
  let membersAt := (interfaceHead name).length
  { kind := .interface
    name := some name
    parent := none
    exported := false
    doc := none
    children := methodNodes source name membersAt methods
    origin := .placed ⟨source, ⟨0, 0⟩, none, ⟨0, source.chars.length⟩, some membersAt⟩ }

end Interfaces

end Node
end Typings

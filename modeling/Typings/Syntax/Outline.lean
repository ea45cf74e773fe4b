import Typings.Syntax.Gap

/-!
# Outlines

An outline says where the declarations of a text stand and what they are called:
one entry per statement and per member, with the stretch of text it covers.  It
holds spans only, and the text of a part is cut out when it is needed.

**Bodies.**  An entry with a body says from where its opening brace is to be
looked for; the entries of the body are its children, in order.

**Moving.**  An outline can be moved as a whole, when positions are to be counted from
another place of the text.
-/

namespace Typings
namespace Syntax

/-- Where the parts of a function signature stand. -/
structure SignatureSpans where
  /-- The type parameters with their angle brackets. -/
  typeParams : Option Span
  /-- The parameters, in order. -/
  params : List Span
  /-- The type after the colon. -/
  result : Option Span
  deriving DecidableEq, Repr, Inhabited

/-- What an entry of an outline declares. -/
inductive Form where
  | function (signature : SignatureSpans)
  /-- A variable, with the type ascription of its first declarator. -/
  | variable (ascription : Option Span)
  | interface
  | classDef
  | enumeration
  | typeAlias
  | nameSpace
  /-- A member of an interface, a class, an enumeration or an object type. -/
  | member
  /-- Any other statement. -/
  | statement
  deriving DecidableEq, Repr, Inhabited

/-- An entry of an outline. -/
structure Outline where
  form : Form
  name : Option Text
  exported : Bool
  span : Span
  /-- From where the brace that opens the body is looked for. -/
  bodyFrom : Option Nat
  children : List Outline
  deriving Repr, Inhabited

namespace Outline

/-- A statement that declares nothing of interest. -/
def statement (span : Span) : Outline :=
  ⟨.statement, none, false, span, none, []⟩

/-- A member without members of its own. -/
def member (span : Span) (name : Option Text) : Outline :=
  ⟨.member, name, false, span, none, []⟩

/-- The same entry over another span, marked as exported. -/
def exportedAt (span : Span) (entry : Outline) : Outline :=
  { entry with exported := true, span := span }

/-- The same entry over another span. -/
def covering (span : Span) (entry : Outline) : Outline :=
  { entry with span := span }

end Outline

section Moving

/-- The same parts `n` characters further on. -/
def SignatureSpans.moved (n : Nat) (signature : SignatureSpans) : SignatureSpans where
  typeParams := signature.typeParams.map (Span.moved n)
  params := signature.params.map (Span.moved n)
  result := signature.result.map (Span.moved n)

def Form.moved (n : Nat) : Form → Form
  | .function signature => .function (signature.moved n)
  | .variable ascription => .variable (ascription.map (Span.moved n))
  | other => other

mutual

/-- The same entry `n` characters further on. -/
def Outline.moved (n : Nat) : Outline → Outline
  | ⟨form, name, exported, span, bodyFrom, children⟩ =>
      ⟨form.moved n, name, exported, span.moved n, bodyFrom.map (· + n),
        Outline.movedAll n children⟩

/-- The same entries `n` characters further on. -/
def Outline.movedAll (n : Nat) : List Outline → List Outline
  | [] => []
  | entry :: rest => Outline.moved n entry :: Outline.movedAll n rest

end

end Moving

end Syntax
end Typings

import Typings.Text.Blank

/-!
# Documentation comments

A declaration is documented by one comment, written as `/** … */`, `/* … */` or
`// …`.  `normalize` reads the text out of any of the three, and `render` writes
it back in one fixed shape: a single line inline, anything longer as a block
with a margin of stars.

**Normal form.**  A documentation comment is a single `line` or a `block` of
lines; an empty line of a block is a paragraph break.

**Nothing to say.**  A comment of markers and white space alone documents
nothing, so `normalize` gives `none`.
-/

namespace Typings

/-- The documentation of one declaration. -/
inductive DocComment where
  /-- Exactly one line of text. -/
  | line (text : Text)
  /-- Several lines; an empty one is a paragraph break. -/
  | block (lines : List Text)
  deriving DecidableEq, Repr, Inhabited

namespace DocComment

section Shape

/-- The documentation with the given lines, if there is a line at all. -/
def ofLines : List Text → Option DocComment
  | [] => none
  | [only] => some (.line only)
  | several => some (.block several)

/-- The lines of the documentation. -/
def lines : DocComment → List Text
  | .line only => [only]
  | .block several => several

/-- The documentation as one text: a single line is marked with a star. -/
def text : DocComment → Text
  | .line only => "* ".toList ++ only
  | .block several => Text.joinLines several

/-- Whether the documentation has the shape of several lines. -/
def isBlock : DocComment → Bool
  | .line _ => false
  | .block _ => true

end Shape

section Rendering

def marginLine (indent content : Text) : Text :=
  '\n' :: (indent ++ if content.isEmpty then " *".toList else " * ".toList ++ content)

/-- The comment in source form; lines after the first start with `indent`. -/
def render (indent : Text) : DocComment → Text
  | .line only => "/** ".toList ++ only ++ " */".toList
  | .block several =>
      "/**".toList ++ several.flatMap (marginLine indent) ++
        '\n' :: (indent ++ " */".toList)

theorem render_line (indent only : Text) :
    (line only).render indent = "/** ".toList ++ only ++ " */".toList := rfl

theorem render_block (indent : Text) (several : List Text) :
    (block several).render indent =
      "/**".toList ++ several.flatMap (marginLine indent) ++ '\n' :: (indent ++ " */".toList) := rfl

end Rendering

section Normalizing

/-- The text between the delimiters of a comment; a missing terminator and
missing delimiters are forgiven. -/
def stripDelimiters (comment : Text) : Text :=
  match Text.afterPrefix? "/*".toList comment with
  | some rest => (Text.beforeSuffix? "*/".toList rest).getD rest
  | none => (Text.afterPrefix? "//".toList comment).getD comment

def stripLeadingMarker (content : Text) : Text :=
  match Text.afterPrefix? "*".toList content with
  | some rest => rest
  | none => (Text.afterPrefix? "//".toList content).getD content

/-- A line without its leading marker and a terminator at its end. -/
def stripMarkers (content : Text) : Text :=
  let rest := stripLeadingMarker content
  Text.trim ((Text.beforeSuffix? "*/".toList rest).getD rest)

/-- What one line of a comment contributes: a bare star is a paragraph break, and
a line with nothing but markers is left out. -/
def readLine (content : Text) : Option Text :=
  if Text.trim content = ['*'] then
    some []
  else
    let kept := stripMarkers (Text.trim content)
    if kept.isEmpty then none else some kept

/-- Whether a line is the lone star left by the opening `/**`. -/
def isOpeningStar (content : Text) : Bool :=
  Text.trim content = ['*']

/-- The lines of a comment body, without the star of its opening. -/
def bodyLines (body : Text) : List Text :=
  match Text.lines body with
  | [] => []
  | first :: others => if isOpeningStar first then others else first :: others

/-- The documentation that a raw comment, delimiters included, holds. -/
def normalize (raw : Text) : Option DocComment :=
  let kept := (bodyLines (stripDelimiters (Text.trim raw))).filterMap readLine
  if kept.all List.isEmpty then none else ofLines kept

end Normalizing

end DocComment

end Typings

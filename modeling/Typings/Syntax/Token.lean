import Typings.Text.Basic

/-!
# Tokens

A token is a word, a mark, a literal, or one of the two ends of reading: the end
of the text, and a stretch that is no token at all.  Words are kept with their
escapes resolved; whether a word is reserved is asked of its name.

**Comments after a token.**  A comment on the same line is kept with some tokens
and passed on to the next token after others; `holdsBlockComment` and
`passesLineComment` make that difference.
-/

namespace Typings

/-- A stretch of a text, from `start` up to `stop`. -/
structure Span where
  start : Nat
  stop : Nat
  deriving DecidableEq, Repr, Inhabited

/-- The stretch that lies `n` characters further on. -/
def Span.moved (n : Nat) (span : Span) : Span :=
  ⟨span.start + n, span.stop + n⟩

namespace Syntax

def leftBrace : String := "\x7b"

def rightBrace : String := "\x7d"

def substitutionMark : String := "$\x7b"

/-- What a token is. -/
inductive TokenKind where
  /-- An identifier or a keyword, with its escapes resolved. -/
  | word (name : String)
  /-- A punctuator or an operator. -/
  | mark (text : String)
  /-- A string literal and its value. -/
  | string (value : Text)
  /-- A number literal as it is written. -/
  | number (literal : Text)
  /-- A big integer literal as it is written, without the `n`. -/
  | bigint (literal : Text)
  /-- A regular expression literal. -/
  | regex
  /-- The end of the text. -/
  | finish
  /-- A stretch that is no token. -/
  | unknown
  deriving DecidableEq, Repr, Inhabited

namespace TokenKind

section Words

/-- The words that are keywords in every context, in which no escape may stand. -/
def keywords : List String :=
  ["await", "break", "case", "catch", "class", "const", "continue", "debugger", "default",
    "delete", "do", "else", "export", "extends", "false", "finally", "for", "function", "if",
    "import", "in", "instanceof", "let", "new", "null", "return", "super", "switch", "this",
    "throw", "true", "try", "typeof", "var", "void", "while", "with", "yield"]

/-- The words that strict code keeps for later use. -/
def laterWords : List String :=
  ["enum", "implements", "interface", "package", "private", "protected", "public"]

def isKeyword (name : String) : Bool :=
  keywords.contains name

/-- Whether a word cannot name anything in strict code. -/
def isReserved (name : String) : Bool :=
  isKeyword name || laterWords.contains name

end Words

section Comments

def binaryOperators : List String :=
  ["==", "!=", "===", "!==", "<", "<=", ">", ">=", "<<", ">>", ">>>", "+", "-", "*", "/", "%",
    "|", "^", "&", "||", "&&", "??", "**"]

/-- Whether a block comment on the same line stays with this token. -/
def holdsBlockComment : TokenKind → Bool
  | .word name => !isKeyword name
  | .mark text => [";", leftBrace, rightBrace, substitutionMark].contains text
  | .string _ | .number _ | .bigint _ | .regex => true
  | .finish | .unknown => false

/-- Whether a line comment on the same line is passed on to the next token. -/
def passesLineComment : TokenKind → Bool
  | .mark text => binaryOperators.contains text
  | _ => false

end Comments

end TokenKind

/-- A token, where it stands, and whether a line break comes right before it. -/
structure Token where
  kind : TokenKind
  span : Span
  afterBreak : Bool
  deriving Repr, Inhabited

end Syntax
end Typings

import Typings.Syntax.Gap

/-!
# Reading one token

`Lexeme.read` takes the token at the front of a text.  Names and strings resolve
their escapes, numbers check where their separators stand, and marks are taken
as long as possible.  What is no token comes out as `unknown`, which no rule of
the grammar accepts.

**Strings.**  The escapes of a string give code points, and among them halves of
surrogate pairs.  Two halves that meet make one character; a half that stays
alone is replaced by three replacement characters.

**On demand.**  A slash and a back quote are read as marks.  Where the grammar
expects an expression there, it asks for `readRegex` and `readTemplate`.
-/

namespace Typings
namespace Syntax

/-- Something read from the front of a text, how long it was, and what is left. -/
structure Taken (α : Type) where
  value : α
  length : Nat
  rest : Text

namespace Taken

def map {α β : Type} (f : α → β) (taken : Taken α) : Taken β :=
  ⟨f taken.value, taken.length, taken.rest⟩

/-- The same stretch with `count` more characters in front of it. -/
def after {α : Type} (count : Nat) (taken : Taken α) : Taken α :=
  ⟨taken.value, count + taken.length, taken.rest⟩

end Taken

section Escapes

def readUnicodeEscape : Text → Option (Taken Nat)
  | '{' :: rest =>
      let digits := rest.takeWhile (isDigitOf 16)
      match rest.drop digits.length with
      | '}' :: left =>
          let value := numberOfDigits 16 digits
          if digits.isEmpty || 0x10FFFF < value then none
          else some ⟨value, digits.length + 2, left⟩
      | _ => none
  | a :: b :: c :: d :: rest =>
      if [a, b, c, d].all (isDigitOf 16) then
        some ⟨numberOfDigits 16 [a, b, c, d], 4, rest⟩
      else
        none
  | _ => none

/-- The code point of an escape of one letter, if there is such an escape. -/
def letterEscape? : Char → Option Nat
  | 'n' => some 0x0A
  | 'r' => some 0x0D
  | 't' => some 0x09
  | 'b' => some 0x08
  | 'v' => some 0x0B
  | 'f' => some 0x0C
  | _ => none

/-- The two digits of an escape that begins with `x`. -/
def readHexEscape : Text → Option (Taken (List Nat))
  | a :: b :: rest =>
      if isDigitOf 16 a && isDigitOf 16 b then
        some ⟨[numberOfDigits 16 [a, b]], 3, rest⟩
      else
        none
  | _ => none

/-- The code points of a string escape, read after its backslash.  An escaped line
break stands for nothing, and octal escapes are refused. -/
def readStringEscape : Text → Option (Taken (List Nat))
  | [] => none
  | c :: rest =>
      match letterEscape? c with
      | some code => some ⟨[code], 1, rest⟩
      | none =>
          if c == 'x' then readHexEscape rest
          else if c == 'u' then
            (readUnicodeEscape rest).map fun taken => (taken.map fun code => [code]).after 1
          else if c == '0' then
            if rest.head?.any (isDigitOf 8) then none else some ⟨[0], 1, rest⟩
          else if c == '\r' && rest.head? == some '\n' then some ⟨[], 2, rest.drop 1⟩
          else if isLineBreak c then some ⟨[], 1, rest⟩
          else if isDigitOf 8 c then none
          else some ⟨[c.toNat], 1, rest⟩

def isHighHalf (code : Nat) : Bool :=
  0xD800 ≤ code && code ≤ 0xDBFF

def isLowHalf (code : Nat) : Bool :=
  0xDC00 ≤ code && code ≤ 0xDFFF

/-- The text of a list of code points: halves that meet are joined, and each half
left alone gives three replacement characters. -/
def textOfCodes : List Nat → Text
  | [] => []
  | [code] =>
      if isHighHalf code || isLowHalf code then List.replicate 3 '\uFFFD'
      else [Char.ofNat code]
  | code :: next :: rest =>
      if isHighHalf code && isLowHalf next then
        Char.ofNat (0x10000 + (code - 0xD800) * 0x400 + (next - 0xDC00)) :: textOfCodes rest
      else if isHighHalf code || isLowHalf code then
        List.replicate 3 '\uFFFD' ++ textOfCodes (next :: rest)
      else
        Char.ofNat code :: textOfCodes (next :: rest)

end Escapes

section Names

/-- The characters that go on with a name and whether one of them was escaped;
`none` for an escape that is malformed or stands for no such character. -/
def readName : Nat → Text → Option (Taken (Text × Bool))
  | 0, t => some ⟨([], false), 0, t⟩
  | _, [] => some ⟨([], false), 0, []⟩
  | fuel + 1, '\\' :: rest =>
      match rest with
      | 'u' :: rest => do
          let escape ← readUnicodeEscape rest
          if continuesName escape.value then
            let more ← readName fuel escape.rest
            some ((more.map fun name => (Char.ofNat escape.value :: name.1, true)).after
              (escape.length + 2))
          else
            none
      | _ => none
  | fuel + 1, c :: rest =>
      if continuesName c.toNat then
        (readName fuel rest).map fun more =>
          (more.map fun name => (c :: name.1, name.2)).after 1
      else
        some ⟨([], false), 0, c :: rest⟩

/-- The word at the front of a text.  A keyword may not be written with escapes. -/
def readWord (fuel : Nat) (t : Text) : Option (Taken String) := do
  let name ← readName fuel t
  let word := String.ofList name.value.1
  match name.value.1 with
  | [] => none
  | first :: _ =>
      if !beginsName first.toNat then none
      else if name.value.2 && TokenKind.isKeyword word then none
      else some (name.map fun _ => word)

end Names

section Strings

/-- The code points of a string up to its closing `quote`. -/
def readString : Nat → Char → Text → Option (Taken (List Nat))
  | 0, _, _ => none
  | _, _, [] => none
  | fuel + 1, quote, '\\' :: rest => do
      let escape ← readStringEscape rest
      let more ← readString fuel quote escape.rest
      some ((more.map fun codes => escape.value ++ codes).after (escape.length + 1))
  | fuel + 1, quote, c :: rest =>
      if c == quote then some ⟨[], 1, rest⟩
      else if c == '\n' || c == '\r' then none
      else (readString fuel quote rest).map fun more =>
        (more.map fun codes => c.toNat :: codes).after 1

/-- A piece of a template: its code points, unless an escape in it is malformed,
and whether a substitution follows. -/
structure TemplatePiece where
  codes : Option (List Nat)
  opensSubstitution : Bool

def TemplatePiece.prepend (codes : Option (List Nat)) (piece : TemplatePiece) : TemplatePiece :=
  { piece with codes := do return (← codes) ++ (← piece.codes) }

/-- The piece of a template up to its end or to the next substitution. -/
def readTemplate : Nat → Text → Option (Taken TemplatePiece)
  | 0, _ => none
  | _, [] => none
  | _, '\x60' :: rest => some ⟨⟨some [], false⟩, 1, rest⟩
  | _, '$' :: '{' :: rest => some ⟨⟨some [], true⟩, 2, rest⟩
  | fuel + 1, '\\' :: rest =>
      match readStringEscape rest with
      | some escape =>
          (readTemplate fuel escape.rest).map fun more =>
            (more.map (.prepend (some escape.value))).after (escape.length + 1)
      | none =>
          (readTemplate fuel (rest.drop 1)).map fun more =>
            (more.map (.prepend none)).after 2
  | fuel + 1, c :: rest =>
      (readTemplate fuel rest).map fun more =>
        (more.map (.prepend (some [if c == '\r' then 0x0A else c.toNat]))).after 1

/-- The body of a regular expression up to its closing slash. -/
def readRegexBody : Text → Bool → Option (Nat × Text)
  | [], _ => none
  | '\\' :: c :: rest, inClass =>
      if isLineBreak c then none
      else (readRegexBody rest inClass).map fun (length, left) => (length + 2, left)
  | c :: rest, inClass =>
      if isLineBreak c then none
      else if c == '/' && !inClass then some (1, rest)
      else
        let inClass := if c == '[' then true else if c == ']' then false else inClass
        (readRegexBody rest inClass).map fun (length, left) => (length + 1, left)

/-- The flags that a regular expression may carry, each at most once. -/
def areRegexFlags (flags : Text) : Bool :=
  flags.all "dgimsuvy".toList.contains && flags.Nodup

/-- A regular expression with its flags, read after the opening slash. -/
def readRegex (t : Text) : Option (Taken Unit) := do
  let (length, left) ← readRegexBody t false
  let flags := left.takeWhile fun c => continuesName c.toNat
  if areRegexFlags flags then
    some ⟨(), length + flags.length, left.drop flags.length⟩
  else
    none

end Strings

section Numbers

/-- A run of digits with separators between them, and never one at an end or two
together. -/
def areSeparatedDigits (run : Text) : Bool :=
  run.head? != some '_' && run.getLast? != some '_' && !run.isEmpty &&
    (run.zip (run.drop 1)).all fun pair => pair != ('_', '_')

/-- The run of digits and separators at the front of a text. -/
def takeDigits (base : Nat) (t : Text) : Text :=
  t.takeWhile fun c => isDigitOf base c || c == '_'

/-- Whether a number may end before this text: no name and no digit follows. -/
def endsNumber : Text → Bool
  | [] => true
  | c :: _ => !(beginsName c.toNat || isDigitOf 10 c || c == '\\')

/-- A number of length `length` at the front of `t`, as a big integer if an `n`
follows and `whole` allows it. -/
def closeNumber (t : Text) (length : Nat) (whole : Bool) : Option (Taken TokenKind) :=
  let literal := t.take length
  match t.drop length with
  | 'n' :: left =>
      if whole && endsNumber left then some ⟨.bigint literal, length + 1, left⟩ else none
  | left => if endsNumber left then some ⟨.number literal, length, left⟩ else none

/-- A number in another base, after a prefix of two characters. -/
def readBased (base : Nat) (t : Text) : Option (Taken TokenKind) :=
  let run := takeDigits base (t.drop 2)
  if areSeparatedDigits run then closeNumber t (2 + run.length) true else none

/-- The length of an exponent at the front of a text: zero if there is none. -/
def exponentLength (t : Text) : Option Nat :=
  match t with
  | e :: rest =>
      if e == 'e' || e == 'E' then
        let sign := match rest with
          | '+' :: _ | '-' :: _ => 1
          | _ => 0
        let run := takeDigits 10 (rest.drop sign)
        if areSeparatedDigits run then some (1 + sign + run.length) else none
      else
        some 0
  | [] => some 0

/-- A decimal number.  A whole part of several digits may not begin with zero. -/
def readDecimal (t : Text) : Option (Taken TokenKind) := do
  let whole := takeDigits 10 t
  if !whole.isEmpty && !areSeparatedDigits whole then none
  else if whole.head? == some '0' && 1 < whole.length then none
  else
    let fraction := match t.drop whole.length with
      | '.' :: rest => some (takeDigits 10 rest)
      | _ => none
    let beforeExponent := match fraction with
      | some run => whole.length + 1 + run.length
      | none => whole.length
    if !((fraction.getD []).isEmpty || areSeparatedDigits (fraction.getD [])) then none
    else
      let exponent ← exponentLength (t.drop beforeExponent)
      closeNumber t (beforeExponent + exponent) (fraction.isNone && exponent == 0)

def readNumber (t : Text) : Option (Taken TokenKind) :=
  match t with
  | '0' :: 'x' :: _ | '0' :: 'X' :: _ => readBased 16 t
  | '0' :: 'o' :: _ | '0' :: 'O' :: _ => readBased 8 t
  | '0' :: 'b' :: _ | '0' :: 'B' :: _ => readBased 2 t
  | _ => readDecimal t

end Numbers

section Marks

/-- The marks, longer ones before their beginnings. -/
def marks : List (Text × String) :=
  [">>>=", "...", "===", "!==", "**=", "<<=", ">>=", ">>>", "&&=", "||=", "??=", "=>", "==",
    "!=", "<=", ">=", "<<", ">>", "&&", "||", "??", "?.", "++", "--", "+=", "-=", "*=", "/=",
    "%=", "&=", "|=", "^=", "**", leftBrace, rightBrace, "(", ")", "[", "]", ";", ",", "<", ">",
    ":", "?", "=", ".", "@", "#", "~", "!", "+", "-", "*", "/", "%", "&", "|", "^", "`"].map
    fun mark => (mark.toList, mark)

/-- The mark at the front of a text.  A question mark and a point with a digit after
them are no optional access, and the comment marks of markup are refused. -/
def readMark (afterBreak : Bool) (t : Text) : Option (Taken String) :=
  if "<!--".toList.isPrefixOf t || (afterBreak && "-->".toList.isPrefixOf t) then
    none
  else
    let take := fun (mark : Text × String) =>
      Taken.mk mark.2 mark.1.length (t.drop mark.1.length)
    match t with
    | '?' :: '.' :: digit :: _ =>
        if isDigitOf 10 digit then some ⟨"?", 1, t.drop 1⟩ else some ⟨"?.", 2, t.drop 2⟩
    | _ => (marks.find? fun mark => mark.1.isPrefixOf t).map take

end Marks

/-- The token at the front of a text in which no space and no comment comes first. -/
def readToken (fuel : Nat) (afterBreak : Bool) (t : Text) : Taken TokenKind :=
  let taken? : Option (Taken TokenKind) :=
    match t with
    | [] => some ⟨.finish, 0, []⟩
    | c :: rest =>
        if c == '"' || c == '\'' then
          (readString fuel c rest).map fun taken => (taken.map (.string ∘ textOfCodes)).after 1
        else if isDigitOf 10 c then readNumber t
        else if c == '.' && (rest.head?.any (isDigitOf 10)) then readNumber t
        else if beginsName c.toNat || c == '\\' then
          (readWord fuel t).map (·.map .word)
        else
          (readMark afterBreak t).map (·.map .mark)
  taken?.getD ⟨.unknown, 1, t.drop 1⟩

end Syntax
end Typings

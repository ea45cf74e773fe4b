import Typings.Documentation.Json
import Typings.Syntax.Character
import Mathlib.Data.List.Basic

/-!
# The index can be read back

Two indexes with the same JSON text have the same entries in the same order.

**Codes.**  A way to write values down is a code if the values, written before any other text,
can be told from what follows them.  Escapes, quoted strings and laid-out values are codes, each
one because its parts are, and a list of items between brackets is one if its items are.

**Escapes.**  `unescaped` reads one character back, so no character is written like another, and
no escape begins with the quote that ends a string.
-/

namespace Typings
namespace JsonValue

/-- Values written with `write` can be told from each other and from any text behind them. -/
def TellsApart {α : Type} (write : α → Text) (a : α) : Prop :=
  ∀ b rest rest', write a ++ rest = write b ++ rest' → a = b ∧ rest = rest'

section Strings

/-- The character that a letter behind a backslash stands for. -/
def unescapedLetter (mark : Char) : Char :=
  if mark = 'b' then '\x08'
  else if mark = 'f' then '\x0c'
  else if mark = 'n' then '\n'
  else if mark = 'r' then '\r'
  else if mark = 't' then '\t'
  else mark

/-- The first character of a text in which characters are escaped, and what follows it. -/
def unescaped : Text → Option (Char × Text)
  | '\\' :: 'u' :: '0' :: '0' :: high :: low :: rest =>
      some (Char.ofNat (Syntax.numberOfDigits 16 [high, low]), rest)
  | '\\' :: mark :: rest => some (unescapedLetter mark, rest)
  | c :: rest => some (c, rest)
  | [] => none

/-- Two digits write a number below thirty-two. -/
theorem numberOfDigits_hexDigits :
    ∀ n < 32, Syntax.numberOfDigits 16 [hexDigit (n / 16), hexDigit (n % 16)] = n := by
  decide

theorem unescaped_of_ne {c : Char} (h : c ≠ '\\') (rest : Text) :
    unescaped (c :: rest) = some (c, rest) := by
  unfold unescaped
  split <;> simp_all

theorem unescaped_escape (c : Char) (rest : Text) :
    unescaped (escape c ++ rest) = some (c, rest) := by
  unfold escape
  split_ifs with hquote hslash h8 hc hn hr ht hcontrol
  iterate 7 · subst c; rfl
  · have hdigits := numberOfDigits_hexDigits c.toNat hcontrol
    simp only [List.cons_append, List.nil_append, unescaped, hdigits, Char.ofNat_toNat]
  · exact unescaped_of_ne hslash rest

/-- No character is written like another one, whatever follows. -/
theorem tellsApart_escape (c : Char) : TellsApart escape c := by
  intro d rest rest' h
  have hread : some (c, rest) = some (d, rest') := by
    rw [← unescaped_escape c rest, h, unescaped_escape]
  simpa using hread

/-- The quote that ends a string is no part of it. -/
theorem escape_append_ne_quote (c : Char) (rest rest' : Text) :
    escape c ++ rest ≠ '"' :: rest' := by
  unfold escape
  split_ifs with hquote
  iterate 8 · simp
  · simp [hquote]

/-- A quoted string ends where its quotes say. -/
theorem tellsApart_quoted (s : Text) : TellsApart quoted s := by
  intro t rest rest' h
  have hbody : s.flatMap escape ++ '"' :: rest = t.flatMap escape ++ '"' :: rest' := by
    simpa [quoted] using h
  clear h
  induction s generalizing t with
  | nil =>
      cases t with
      | nil => simpa using hbody
      | cons d t =>
          rw [List.flatMap_cons, List.append_assoc] at hbody
          exact absurd hbody.symm (escape_append_ne_quote d _ _)
  | cons c s ih =>
      cases t with
      | nil =>
          rw [List.flatMap_cons, List.append_assoc] at hbody
          exact absurd hbody (escape_append_ne_quote c _ _)
      | cons d t =>
          rw [List.flatMap_cons, List.flatMap_cons, List.append_assoc, List.append_assoc] at hbody
          obtain ⟨rfl, hmore⟩ := tellsApart_escape c d _ _ hbody
          obtain ⟨rfl, hrest⟩ := ih t hmore
          exact ⟨rfl, hrest⟩

end Strings

section Brackets

variable {α : Type} {write : α → Text} {opening closing : Char} {level : Nat}

/-- What stands behind the first item of a list: the other items, each on a line of its own, and
the closing bracket. -/
def remainder (closing : Char) (level : Nat) : List Text → Text
  | [] => newLine level ++ [closing]
  | item :: rest => ',' :: (newLine (level + 1) ++ item ++ remainder closing level rest)

theorem bracketed_cons (opening closing : Char) (level : Nat) (item : Text) (items : List Text) :
    bracketed opening closing level (item :: items) =
      opening :: (newLine (level + 1) ++ item ++ remainder closing level items) := by
  have hjoin : ∀ (item : Text) (items : List Text),
      Text.joinWith [','] ((item :: items).map (newLine (level + 1) ++ ·)) ++
        newLine level ++ [closing] =
      newLine (level + 1) ++ item ++ remainder closing level items := by
    intro item items
    induction items generalizing item with
    | nil => simp [Text.joinWith, remainder]
    | cons next items ih =>
        have ih := ih next
        simp only [List.map_cons] at ih
        simp only [List.map_cons, Text.joinWith, remainder, List.append_assoc] at ih ⊢
        rw [ih]
        simp
  rw [bracketed, hjoin]
  simp

/-- The other items can be told apart if each of them can. -/
theorem remainder_append_cancel {as : List α} (h : ∀ a ∈ as, TellsApart write a) {bs : List α}
    {rest rest' : Text}
    (heq : remainder closing level (as.map write) ++ rest =
      remainder closing level (bs.map write) ++ rest') :
    as = bs ∧ rest = rest' := by
  induction as generalizing bs with
  | nil =>
      cases bs with
      | nil => exact ⟨rfl, List.append_cancel_left heq⟩
      | cons b bs => simp [remainder, newLine] at heq
  | cons a as ih =>
      cases bs with
      | nil => simp [remainder, newLine] at heq
      | cons b bs =>
          simp only [List.map_cons, remainder, List.cons_append, List.append_assoc,
            List.cons.injEq, List.append_cancel_left_eq, true_and] at heq
          obtain ⟨rfl, hmore⟩ := h a List.mem_cons_self b _ _ heq
          obtain ⟨rfl, hrest⟩ := ih (fun a ha => h a (List.mem_cons_of_mem _ ha)) hmore
          exact ⟨rfl, hrest⟩

/-- A list between brackets can be told apart if each of its items can.  The line behind the
opening bracket tells an empty list from the others. -/
theorem tellsApart_bracketed (hclosing : closing ≠ '\n') {as : List α}
    (h : ∀ a ∈ as, TellsApart write a) :
    TellsApart (fun as : List α => bracketed opening closing level (as.map write)) as := by
  intro bs rest rest' heq
  cases as with
  | nil =>
      cases bs with
      | nil => simpa [bracketed] using heq
      | cons b bs =>
          simp only [List.map_cons, bracketed_cons] at heq
          simp [bracketed, newLine, hclosing] at heq
  | cons a as =>
      cases bs with
      | nil =>
          simp only [List.map_cons, bracketed_cons] at heq
          simp [bracketed, newLine, hclosing.symm] at heq
      | cons b bs =>
          simp only [List.map_cons, bracketed_cons, List.cons_append, List.append_assoc,
            List.cons.injEq, List.append_cancel_left_eq, true_and] at heq
          obtain ⟨rfl, hmore⟩ := h a List.mem_cons_self b _ _ heq
          obtain ⟨rfl, hrest⟩ := remainder_append_cancel
            (fun a ha => h a (List.mem_cons_of_mem _ ha)) hmore
          exact ⟨rfl, hrest⟩

end Brackets

section Layout

/-- A field of an object, as it is written. -/
def layoutField (level : Nat) (field : Text × JsonValue) : Text :=
  quoted field.1 ++ ':' :: ' ' :: layout level field.2

theorem layoutItems_eq_map (level : Nat) (items : List JsonValue) :
    layoutItems level items = items.map (layout level) := by
  induction items with
  | nil => rfl
  | cons item rest ih => rw [layoutItems, ih, List.map_cons]

theorem layoutFields_eq_map (level : Nat) (fields : List (Text × JsonValue)) :
    layoutFields level fields = fields.map (layoutField level) := by
  induction fields with
  | nil => rfl
  | cons field rest ih => rw [layoutFields, ih, List.map_cons, layoutField]

theorem tellsApart_layoutField {level : Nat} {name : Text} {value : JsonValue}
    (h : TellsApart (layout level) value) : TellsApart (layoutField level) (name, value) := by
  intro other rest rest' heq
  simp only [layoutField, List.append_assoc, List.cons_append] at heq
  obtain ⟨hname, hvalue⟩ := tellsApart_quoted name other.1 _ _ heq
  obtain ⟨hvalue, hrest⟩ := h other.2 rest rest' (by simpa using hvalue)
  exact ⟨Prod.ext hname hvalue, hrest⟩

-- The induction is on the value; its first letter says what the other value is.
mutual

/-- A value that is laid out at a level can be told from every other one. -/
theorem tellsApart_layout (level : Nat) : (value : JsonValue) → TellsApart (layout level) value
  | .string s => by
      intro other rest rest' heq
      cases other with
      | string t =>
          obtain ⟨rfl, hrest⟩ := tellsApart_quoted s t rest rest' heq
          exact ⟨rfl, hrest⟩
      | list items => cases items <;> simp [layout, layoutItems, quoted, bracketed] at heq
      | object fields => cases fields <;> simp [layout, layoutFields, quoted, bracketed] at heq
  | .list items => by
      intro other rest rest' heq
      cases other with
      | string t => cases items <;> simp [layout, layoutItems, quoted, bracketed] at heq
      | list items' =>
          rw [layout, layout, layoutItems_eq_map, layoutItems_eq_map] at heq
          obtain ⟨rfl, hrest⟩ := tellsApart_bracketed (by decide)
            (tellsApart_layoutItems (level + 1) items) items' rest rest' heq
          exact ⟨rfl, hrest⟩
      | object fields =>
          cases items <;> cases fields <;>
            simp [layout, layoutItems, layoutFields, bracketed] at heq
  | .object fields => by
      intro other rest rest' heq
      cases other with
      | string t => cases fields <;> simp [layout, layoutFields, quoted, bracketed] at heq
      | list items =>
          cases items <;> cases fields <;>
            simp [layout, layoutItems, layoutFields, bracketed] at heq
      | object fields' =>
          rw [layout, layout, layoutFields_eq_map, layoutFields_eq_map] at heq
          obtain ⟨rfl, hrest⟩ := tellsApart_bracketed (by decide)
            (tellsApart_layoutFields (level + 1) fields) fields' rest rest' heq
          exact ⟨rfl, hrest⟩

theorem tellsApart_layoutItems (level : Nat) : (items : List JsonValue) →
    ∀ item ∈ items, TellsApart (layout level) item
  | [] => by simp
  | item :: rest => by
      intro other hother
      rcases List.mem_cons.mp hother with hitem | hrest
      · rw [hitem]
        exact tellsApart_layout level item
      · exact tellsApart_layoutItems level rest other hrest

theorem tellsApart_layoutFields (level : Nat) : (fields : List (Text × JsonValue)) →
    ∀ field ∈ fields, TellsApart (layoutField level) field
  | [] => by simp
  | (name, value) :: rest => by
      intro other hother
      rcases List.mem_cons.mp hother with hfield | hrest
      · rw [hfield]
        exact tellsApart_layoutField (tellsApart_layout level value)
      · exact tellsApart_layoutFields level rest other hrest

end

theorem layout_injective (level : Nat) : Function.Injective (layout level) := by
  intro value other heq
  have happend : layout level value ++ [] = layout level other ++ [] := by rw [heq]
  exact (tellsApart_layout level value other [] [] happend).1

end Layout

end JsonValue

namespace DocComment

/-- A line and a block are told apart by their kind, and their text says the rest. -/
theorem toJson_injective : Function.Injective toJson := by
  intro doc other heq
  cases doc with
  | line only =>
      cases other with
      | line only' => simpa [toJson] using heq
      | block several => simp [toJson] at heq
  | block several =>
      cases other with
      | line only => simp [toJson] at heq
      | block several' =>
          have hlines : several.map JsonValue.string = several'.map JsonValue.string := by
            simpa [toJson] using heq
          have hstring : Function.Injective JsonValue.string := fun s t h => by simpa using h
          rw [List.map_injective_iff.mpr hstring hlines]

end DocComment

namespace DocIndex

/-- The value of an index holds its entries in their order. -/
theorem entries_eq_of_toJson_eq {index other : DocIndex} (h : index.toJson = other.toJson) :
    index.entries = other.entries := by
  have hfields : index.entries.map (fun entry => (entry.1, entry.2.toJson)) =
      other.entries.map fun entry => (entry.1, entry.2.toJson) := by
    simpa [toJson] using h
  have hentry : Function.Injective fun entry : Text × DocComment =>
      (entry.1, entry.2.toJson) := by
    intro entry entry' heq
    obtain ⟨hname, hdoc⟩ := Prod.ext_iff.mp heq
    exact Prod.ext hname (DocComment.toJson_injective hdoc)
  exact List.map_injective_iff.mpr hentry hfields

/-- The text of an index says what its entries are, and in which order: two indexes have the same
text if and only if they have the same entries, so one reader gets the entries back from the text
of every index. -/
theorem jsonText_faithful :
    (∀ index other : DocIndex, index.jsonText = other.jsonText ↔ index.entries = other.entries) ∧
      ∃ read : Text → List (Text × DocComment),
        ∀ index : DocIndex, read index.jsonText = index.entries := by
  have hiff : ∀ index other : DocIndex,
      index.jsonText = other.jsonText ↔ index.entries = other.entries := by
    intro index other
    constructor
    · intro h
      exact entries_eq_of_toJson_eq (JsonValue.layout_injective 0 h)
    · intro h
      simp only [jsonText, toJson, h]
  refine ⟨hiff, ?_⟩
  classical
  let read : Text → List (Text × DocComment) := fun t =>
    if h : ∃ index : DocIndex, index.jsonText = t then h.choose.entries else []
  refine ⟨read, fun index => ?_⟩
  have hexists : ∃ other : DocIndex, other.jsonText = index.jsonText := ⟨index, rfl⟩
  simp only [read, dif_pos hexists]
  exact (hiff _ index).mp hexists.choose_spec

end DocIndex

end Typings

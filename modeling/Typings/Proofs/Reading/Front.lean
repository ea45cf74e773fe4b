import Typings.Proofs.Reading.Moved
import Typings.Syntax.Grammar
import Mathlib.Data.List.Basic
import Mathlib.Tactic.SplitIfs

/-!
# A line comment in front of a document

A document with a line comment and an empty line in front of it has the outline that it has
without them, moved by their width, and one more comment.

**Bounds.**  The bound of the lexer is the size of the text, which the comment makes larger.  A
token is read in the same way under every bound that covers the text.

**First lines.**  A first line that begins with `#!` is passed over at the start of a text only,
so that a text with such a line is left out here.
-/

namespace Typings
namespace Syntax

section Fuel

variable {t : Text} {fuel fuel' : Nat}

theorem length_rest_readUnicodeEscape {escape : Taken Nat} (h : readUnicodeEscape t = some escape) :
    escape.rest.length ≤ t.length := by
  unfold readUnicodeEscape at h
  split at h
  · rename_i rest
    dsimp only at h
    split at h
    · rename_i left hdrop
      split at h
      · cases h
      · obtain rfl := Option.some.inj h
        have hlength := congrArg List.length hdrop
        simp only [List.length_drop, List.length_cons] at hlength ⊢
        omega
    · cases h
  · split at h
    · obtain rfl := Option.some.inj h
      simp only [List.length_cons]
      omega
    · cases h
  · cases h

theorem length_rest_readHexEscape {escape : Taken (List Nat)} (h : readHexEscape t = some escape) :
    escape.rest.length ≤ t.length := by
  unfold readHexEscape at h
  split at h
  · split at h
    · obtain rfl := Option.some.inj h
      simp only [List.length_cons]
      omega
    · cases h
  · cases h

theorem length_rest_readStringEscape {escape : Taken (List Nat)}
    (h : readStringEscape t = some escape) : escape.rest.length ≤ t.length := by
  cases t with
  | nil => cases h
  | cons c rest =>
      rw [List.length_cons]
      simp only [readStringEscape] at h
      cases hletter : letterEscape? c with
      | some code =>
          rw [hletter] at h
          obtain rfl := Option.some.inj h
          exact Nat.le_succ _
      | none =>
      rw [hletter] at h
      dsimp only at h
      split_ifs at h
      · exact Nat.le_succ_of_le (length_rest_readHexEscape h)
      · obtain ⟨taken, htaken, rfl⟩ := Option.map_eq_some_iff.mp h
        exact Nat.le_succ_of_le (length_rest_readUnicodeEscape htaken)
      all_goals obtain rfl := Option.some.inj h
      · exact Nat.le_succ _
      · simp only [List.length_drop]
        omega
      · exact Nat.le_succ _
      · exact Nat.le_succ _

/-- A name is read in the same way however much longer than the text its bound is. -/
theorem readName_fuel (h : t.length ≤ fuel) (h' : t.length ≤ fuel') :
    readName fuel t = readName fuel' t := by
  induction fuel generalizing t fuel' with
  | zero =>
      obtain rfl : t = [] := List.eq_nil_of_length_eq_zero (Nat.le_zero.mp h)
      cases fuel' <;> rfl
  | succ fuel ih =>
      cases t with
      | nil => cases fuel' <;> rfl
      | cons c rest =>
          cases fuel' with
          | zero => simp at h'
          | succ fuel' =>
              have hmore : ∀ more : Text, more.length ≤ rest.length →
                  readName fuel more = readName fuel' more := by
                intro more hle
                simp only [List.length_cons] at h h'
                exact ih (by omega) (by omega)
              by_cases hc : c = '\\'
              · subst hc
                by_cases hmark : ∃ body, rest = 'u' :: body
                · obtain ⟨body, rfl⟩ := hmark
                  simp only [readName]
                  cases hescape : readUnicodeEscape body with
                  | none => rfl
                  | some escape =>
                      have hlength := length_rest_readUnicodeEscape hescape
                      simp only [Option.bind_eq_bind, Option.bind_some]
                      rw [hmore escape.rest (Nat.le_succ_of_le hlength)]
                · -- The equation of this case asks for the fact.
                  have hnone : ∀ body, rest = 'u' :: body → False :=
                    fun body heq => hmark ⟨body, heq⟩
                  simp only [readName]
              · simp only [readName, hmore rest (Nat.le_refl _)]

theorem readString_fuel {quote : Char} (h : t.length ≤ fuel) (h' : t.length ≤ fuel') :
    readString fuel quote t = readString fuel' quote t := by
  induction fuel generalizing t fuel' with
  | zero =>
      obtain rfl : t = [] := List.eq_nil_of_length_eq_zero (Nat.le_zero.mp h)
      cases fuel' <;> rfl
  | succ fuel ih =>
      cases t with
      | nil => cases fuel' <;> rfl
      | cons c rest =>
          cases fuel' with
          | zero => simp at h'
          | succ fuel' =>
              have hmore : ∀ more : Text, more.length ≤ rest.length →
                  readString fuel quote more = readString fuel' quote more := by
                intro more hle
                simp only [List.length_cons] at h h'
                exact ih (by omega) (by omega)
              by_cases hc : c = '\\'
              · subst hc
                simp only [readString]
                cases hescape : readStringEscape rest with
                | none => rfl
                | some escape =>
                    simp only [Option.bind_eq_bind, Option.bind_some]
                    rw [hmore escape.rest (length_rest_readStringEscape hescape)]
              · simp only [readString, hmore rest (Nat.le_refl _)]

/-- A token is read in the same way however much longer than the text the bound is. -/
theorem readToken_fuel (afterBreak : Bool) (h : t.length ≤ fuel) (h' : t.length ≤ fuel') :
    readToken fuel afterBreak t = readToken fuel' afterBreak t := by
  cases t with
  | nil => rfl
  | cons c rest =>
      have hstring : readString fuel c rest = readString fuel' c rest :=
        readString_fuel (Nat.le_of_succ_le h) (Nat.le_of_succ_le h')
      simp only [readToken, readWord, readName_fuel h h', hstring]

end Fuel

section Lines

variable {line t : Text}

/-- A line comment goes on up to the end of the line. -/
theorem Gap.readFrom_line (h : ∀ x ∈ line, isLineBreak x = false) (pos start : Nat)
    (afterBreak sawBreak : Bool) (met : List MetComment) :
    readFrom (line ++ '\n' :: t) pos (.line start afterBreak) sawBreak met =
      readFrom t (pos + line.length + 1) .space true
        (⟨⟨start, pos + line.length⟩, false, afterBreak, false⟩ :: met) := by
  induction line generalizing pos with
  | nil => rfl
  | cons x line ih =>
      have hx := h x List.mem_cons_self
      have hnext : pos + 1 + line.length = pos + (x :: line).length := by
        simp only [List.length_cons]
        omega
      rw [← hnext, ← ih (fun y hy => h y (List.mem_cons_of_mem _ hy))]
      simp only [List.cons_append, readFrom, hx, if_false, Bool.false_eq_true]

/-- The text behind a line comment and an empty line. -/
def behindLine (line t : Text) : Text :=
  '/' :: '/' :: (line ++ '\n' :: '\n' :: t)

/-- How many characters stand in front of the text. -/
def lineWidth (line : Text) : Nat :=
  line.length + 4

theorem behindLine_eq_append (line t : Text) :
    ∃ front, front.length = lineWidth line ∧ behindLine line t = front ++ t :=
  ⟨'/' :: '/' :: (line ++ ['\n', '\n']), by simp [lineWidth], by simp [behindLine]⟩

theorem Gap.read_behindLine (h : ∀ x ∈ line, isLineBreak x = false) (t : Text) :
    read (behindLine line t) 0 true =
      (read t 0 true).moved (lineWidth line) [⟨⟨0, line.length + 2⟩, false, true, false⟩] := by
  have hpos : 0 + 2 + line.length + 1 + 1 = 0 + lineWidth line := by
    simp only [lineWidth]
    omega
  have hstop : 0 + 2 + line.length = line.length + 2 := by omega
  rw [read, behindLine, readFrom, readFrom_line h, readFrom, if_pos (by decide), hpos, hstop]
  · exact readFrom_moved (lineWidth line) [⟨⟨0, line.length + 2⟩, false, true, false⟩] t 0 .space
      true []
  all_goals simp

end Lines

namespace Cursor

variable {line t : Text}

theorem first_of_not_shebang (h : ¬ "#!".toList <+: t) :
    first t = following t.length .finish 0 t true [] := by
  unfold first
  split
  · rename_i rest
    exact absurd ⟨rest, rfl⟩ h
  · rfl

/-- What is read behind a line comment is what is read without it. -/
theorem first_behindLine (hline : ∀ x ∈ line, isLineBreak x = false)
    (ht : ¬ "#!".toList <+: t) :
    (first (behindLine line t)).rebased = (first t).rebased ∧
      (first (behindLine line t)).position = (first t).position + lineWidth line ∧
      ∃ lead : Comment, lead.span = ⟨0, line.length + 2⟩ ∧ lead.isBlock = false ∧
        (first (behindLine line t)).comments.reverse =
          lead :: (first t).comments.reverse.map (Comment.moved (lineWidth line)) := by
  have hfront : ¬ "#!".toList <+: behindLine line t := by simp [behindLine]
  have hlength : t.length ≤ (behindLine line t).length := by
    obtain ⟨front, -, heq⟩ := behindLine_eq_append line t
    rw [heq, List.length_append]
    omega
  have hrest : (Gap.read t 0 true).rest.length ≤ t.length := by
    rw [(Gap.reads_read t 0 true).rest_eq, List.length_drop]
    omega
  rw [first_of_not_shebang hfront, first_of_not_shebang ht]
  unfold following
  rw [Gap.read_behindLine hline]
  generalize Gap.read t 0 true = gap at hrest
  have htoken := readToken_fuel gap.sawBreak (Nat.le_trans hrest hlength) hrest
  have hcomments : ∀ taken : TokenKind,
      ∃ lead : Comment, lead.span = ⟨0, line.length + 2⟩ ∧ lead.isBlock = false ∧
        (gap.moved (lineWidth line) [⟨⟨0, line.length + 2⟩, false, true, false⟩]).comments .finish
            (if taken == .finish then none else some (gap.stop + lineWidth line)) =
          lead :: (gap.comments .finish (if taken == .finish then none else some gap.stop)).map
            (Comment.moved (lineWidth line)) := by
    intro taken
    refine ⟨⟨⟨0, line.length + 2⟩, false,
      if taken == .finish then none else some (gap.stop + lineWidth line)⟩, rfl, rfl, ?_⟩
    have hnext : (if taken == .finish then none else some (gap.stop + lineWidth line)) =
        (if taken == .finish then none else some gap.stop).map (· + lineWidth line) := by
      split <;> rfl
    rw [hnext, ← Gap.comments_moved]
    rfl
  dsimp only [Gap.moved] at hcomments ⊢
  rw [htoken]
  generalize (if gap.closed = true then readToken t.length gap.sawBreak gap.rest else
    ⟨.unknown, 0, []⟩) = taken
  refine ⟨?_, rfl, ?_⟩
  · simp only [rebased, position, Nat.add_sub_cancel_left]
  · obtain ⟨lead, hspan, hblock, heq⟩ := hcomments taken.value
    refine ⟨lead, hspan, hblock, ?_⟩
    simpa using heq

end Cursor

section Documents

variable {line t : Text}

/-- What is read from a place depends on the place alone. -/
theorem run?_congr {α β : Type} {p : Parser α} {c d : Cursor} (h : c = d)
    (f : α → Cursor → β) :
    (p.run? c).map (fun read => f read.value read.cursor) =
      (p.run? d).map fun read => f read.value read.cursor := by
  subst h
  rfl

/-- A document behind a line comment has the same outline, and one more comment. -/
theorem readDocument_behindLine (hline : ∀ x ∈ line, isLineBreak x = false)
    (ht : ¬ "#!".toList <+: t) :
    ∃ lead : Comment, lead.span = ⟨0, line.length + 2⟩ ∧ lead.isBlock = false ∧
      readDocument (behindLine line t) =
        (readDocument t).map fun read =>
          (Outline.movedAll (lineWidth line) read.1,
            lead :: read.2.map (Comment.moved (lineWidth line))) := by
  obtain ⟨hrebased, hposition, lead, hspan, hblock, hcomments⟩ :=
    Cursor.first_behindLine hline ht
  refine ⟨lead, hspan, hblock, ?_⟩
  have hstart : (Cursor.atStart (behindLine line t)).rebased = (Cursor.atStart t).rebased :=
    hrebased
  have hat : (Cursor.atStart (behindLine line t)).position =
      (Cursor.atStart t).position + lineWidth line := hposition
  have hbefore : (Cursor.atStart (behindLine line t)).comments.reverse =
      lead :: (Cursor.atStart t).comments.reverse.map (Comment.moved (lineWidth line)) :=
    hcomments
  simp only [readDocument, hat, hbefore, Option.map_map, Function.comp_def,
    Outline.movedAll_movedAll, List.map_append, List.map_map, Comment.moved_moved,
    List.cons_append]
  exact run?_congr hstart fun entries last =>
    (Outline.movedAll ((Cursor.atStart t).position + lineWidth line) entries,
      lead :: ((Cursor.atStart t).comments.reverse.map (Comment.moved (lineWidth line)) ++
        last.comments.reverse.map
          (Comment.moved ((Cursor.atStart t).position + lineWidth line))))

end Documents

end Syntax
end Typings

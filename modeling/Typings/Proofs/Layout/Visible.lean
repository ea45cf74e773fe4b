import Typings.Proofs.Layout.Copy
import Mathlib.Data.List.TakeWhile

/-!
# What documenting a text keeps

Documentation that takes the place of a comment also takes the place of what stands between
the comment and its node, unless a line ends there.  The rest of the text keeps all of its
characters that are not blank, in their order.

**Lost text.**  Nothing but that stretch can get lost, so a text keeps all of its visible
characters outside of comments just if no such stretch holds one.
-/

namespace Typings

namespace Text

/-- The characters of a text that are not blank, in order. -/
def visible (t : Text) : Text :=
  t.filter fun c => !isBlank c

@[simp] theorem visible_append (t others : Text) :
    visible (t ++ others) = visible t ++ visible others :=
  List.filter_append ..

theorem visible_eq_nil {t : Text} (h : ∀ c ∈ t, isBlank c = true) : visible t = [] := by
  simpa [visible, List.filter_eq_nil_iff] using h

theorem visible_trimStart (t : Text) : visible (trimStart t) = visible t := by
  have hopening : visible (openingBlank t) = [] :=
    visible_eq_nil fun c hc => List.mem_takeWhile_imp hc
  conv_rhs => rw [← openingBlank_append_trimStart t, visible_append, hopening, List.nil_append]

theorem visible_trimEnd (t : Text) : visible (trimEnd t) = visible t := by
  induction t with
  | nil => rfl
  | cons c rest ih =>
      rw [trimEnd]
      split
      · rename_i hnil
        rw [hnil] at ih
        split <;> simp_all [visible]
      · simp only [visible, List.filter_cons] at ih ⊢
        rw [ih]

/-- An indent has nothing visible. -/
theorem visible_lineIndent (t : Text) (position : Nat) : visible (lineIndent t position) = [] :=
  visible_eq_nil fun _ hc => isBlank_of_isIndent (List.mem_takeWhile_imp hc)

end Text

namespace Place

/-- The edit that writes documentation in the place of the comment alone. -/
def commentEdit (place : Place) (doc : DocComment) : Edit :=
  match place.comment with
  | some comment =>
      ⟨comment.start, comment.stop, doc.render (Text.lineIndent place.chars comment.start)⟩
  | none =>
      ⟨place.range.start, place.range.start,
        doc.render (Text.lineIndent place.chars place.range.start)⟩

/-- The text between the comment of a node and the node. -/
def afterComment (place : Place) : Text :=
  match place.comment with
  | some comment => place.between comment.stop place.range.start
  | none => []

/-- A line ends between the comment of a node and the node, or nothing visible stands
there. -/
def KeepsAfter (place : Place) : Prop :=
  '\n' ∈ place.afterComment ∨ Text.visible place.afterComment = []

/-- The visible characters between comment and node that get lost. -/
def lostText (place : Place) : Text :=
  if place.afterComment.contains '\n' then [] else Text.visible place.afterComment

theorem lostText_eq_nil_iff (place : Place) : place.lostText = [] ↔ place.KeepsAfter := by
  unfold lostText KeepsAfter
  split <;> simp_all

variable {place : Place} {source : SourceText} {lo : Nat}

/-- The two edits start at the same position, and the one of the comment alone ends where
what follows the comment begins. -/
theorem docEdit_start (place : Place) (doc : DocComment) :
    (place.docEdit doc).start = (place.commentEdit doc).start := by
  cases h : place.comment <;> simp [docEdit, commentEdit, h]

theorem docEdit_stop (place : Place) (doc : DocComment) :
    (place.docEdit doc).stop = place.range.start := by
  cases h : place.comment <;> simp [docEdit, h]

theorem commentEdit_bounds (h : place.Stands source lo) (doc : DocComment) :
    (place.commentEdit doc).start ≤ (place.commentEdit doc).stop ∧
      (place.commentEdit doc).stop ≤ place.range.start := by
  unfold commentEdit
  split
  · rename_i span hspan
    obtain ⟨-, hlt, hstop⟩ := h.comment span hspan
    exact ⟨Nat.le_of_lt hlt, hstop⟩
  · exact ⟨Nat.le_refl _, Nat.le_refl _⟩

theorem slice_commentEdit_stop (h : place.Stands source lo) (doc : DocComment) :
    Text.slice source.chars (place.commentEdit doc).stop place.range.start =
      place.afterComment := by
  unfold commentEdit afterComment
  split
  · rw [between, chars, h.source_eq]
  · exact Text.slice_self ..

/-- What an edit shows besides the documentation itself. -/
theorem visible_docEdit (place : Place) (doc : DocComment) :
    Text.visible (place.docEdit doc).text =
      Text.visible (place.commentEdit doc).text ++
        if place.afterComment.contains '\n' then Text.visible place.afterComment else [] := by
  have hbreak : ∀ indent, Text.visible indent = [] → Text.visible ('\n' :: indent) = [] := by
    intro indent hindent
    simpa [Text.visible, isBlank] using hindent
  cases h : place.comment with
  | none =>
      simp only [docEdit, commentEdit, afterComment, h, Text.visible_append]
      rw [hbreak _ (Text.visible_lineIndent ..)]
      rfl
  | some span =>
      simp only [docEdit, commentEdit, afterComment, h, Text.visible_append]
      split
      · rfl
      · rw [hbreak _ (Text.visible_lineIndent ..)]

end Place

section Marks

variable {source : SourceText} {marks : List (Place × DocComment)} {lo hi : Nat}

/-- The edits of the comments alone do not overlap either. -/
theorem edits_commentEdit (h : Edits lo (marks.map fun mark => mark.1.docEdit mark.2) hi)
    (hstands : ∀ mark ∈ marks, ∃ lo, mark.1.Stands source lo) :
    Edits lo (marks.map fun mark => mark.1.commentEdit mark.2) hi := by
  induction marks generalizing lo with
  | nil => exact h
  | cons mark rest ih =>
      cases h with
      | cons hstart hle hrest =>
          obtain ⟨_, hmark⟩ := hstands mark (by simp)
          obtain ⟨hbounds, hstop⟩ := mark.1.commentEdit_bounds hmark mark.2
          have hmore := ih hrest fun other hother => hstands other (by simp [hother])
          rw [mark.1.docEdit_stop] at hmore
          rw [mark.1.docEdit_start] at hstart
          exact .cons hstart hbounds (hmore.widen hstop (Nat.le_refl _))

/-- The characters that both layouts show, up to the first node with documentation and in
the text that is lost there. -/
theorem visible_edited_cons {mark : Place × DocComment}
    (h : Edits lo ((mark :: marks).map fun mark => mark.1.docEdit mark.2) hi)
    (hstands : ∀ other ∈ mark :: marks, ∃ lo, other.1.Stands source lo) :
    ∃ shown,
      Text.visible (Text.edited source.chars lo hi
          ((mark :: marks).map fun mark => mark.1.docEdit mark.2)) =
        shown ++ Text.visible (Text.edited source.chars mark.1.range.start hi
          (marks.map fun mark => mark.1.docEdit mark.2)) ∧
      Text.visible (Text.edited source.chars lo hi
          ((mark :: marks).map fun mark => mark.1.commentEdit mark.2)) =
        shown ++ mark.1.lostText ++ Text.visible (Text.edited source.chars mark.1.range.start hi
          (marks.map fun mark => mark.1.commentEdit mark.2)) := by
  obtain ⟨_, hmark⟩ := hstands mark (by simp)
  have hafter := mark.1.slice_commentEdit_stop hmark mark.2
  have hstop := (mark.1.commentEdit_bounds hmark mark.2).2
  have hkept : Text.visible mark.1.afterComment =
      (if mark.1.afterComment.contains '\n' then Text.visible mark.1.afterComment else []) ++
        mark.1.lostText := by
    unfold Place.lostText
    split <;> simp
  cases h with
  | cons hstart hle hrest =>
      rw [mark.1.docEdit_stop] at hrest
      have hmore := edits_commentEdit hrest fun other hother => hstands other (by simp [hother])
      refine ⟨Text.visible (Text.slice source.chars lo (mark.1.commentEdit mark.2).start) ++
        Text.visible (mark.1.commentEdit mark.2).text ++
        if mark.1.afterComment.contains '\n' then Text.visible mark.1.afterComment else [], ?_, ?_⟩
      · simp only [List.map_cons, Text.edited, Text.visible_append, mark.1.docEdit_start,
          mark.1.docEdit_stop, mark.1.visible_docEdit, List.append_assoc]
      · simp only [List.map_cons, Text.edited, Text.visible_append]
        rw [← Text.slice_append_edited hmore hstop, Text.visible_append, hafter]
        conv_lhs => rw [hkept]
        simp only [List.append_assoc]

/-- Nothing that is visible gets lost if every node keeps what follows its comment. -/
theorem visible_edited_eq (h : Edits lo (marks.map fun mark => mark.1.docEdit mark.2) hi)
    (hstands : ∀ mark ∈ marks, ∃ lo, mark.1.Stands source lo)
    (hkeeps : ∀ mark ∈ marks, mark.1.KeepsAfter) :
    Text.visible (Text.edited source.chars lo hi (marks.map fun mark => mark.1.docEdit mark.2)) =
      Text.visible
        (Text.edited source.chars lo hi (marks.map fun mark => mark.1.commentEdit mark.2)) := by
  induction marks generalizing lo with
  | nil => rfl
  | cons mark rest ih =>
      obtain ⟨shown, hdocs, hcomments⟩ := visible_edited_cons h hstands
      have hlost := mark.1.lostText_eq_nil_iff.mpr (hkeeps mark (by simp))
      cases h with
      | cons hstart hle hrest =>
          rw [mark.1.docEdit_stop] at hrest
          rw [hdocs, hcomments, hlost, List.append_nil, ih hrest]
          · exact fun other hother => hstands other (by simp [hother])
          · exact fun other hother => hkeeps other (by simp [hother])

/-- How many visible characters get lost. -/
theorem length_visible_edited (h : Edits lo (marks.map fun mark => mark.1.docEdit mark.2) hi)
    (hstands : ∀ mark ∈ marks, ∃ lo, mark.1.Stands source lo) :
    (Text.visible
        (Text.edited source.chars lo hi (marks.map fun mark => mark.1.commentEdit mark.2))).length =
      (Text.visible
        (Text.edited source.chars lo hi (marks.map fun mark => mark.1.docEdit mark.2))).length +
      (marks.flatMap fun mark => mark.1.lostText).length := by
  induction marks generalizing lo with
  | nil => rfl
  | cons mark rest ih =>
      obtain ⟨shown, hdocs, hcomments⟩ := visible_edited_cons h hstands
      cases h with
      | cons hstart hle hrest =>
          rw [mark.1.docEdit_stop] at hrest
          have hmore := ih hrest fun other hother => hstands other (by simp [hother])
          rw [hdocs, hcomments]
          simp only [List.length_append, hmore, List.flatMap_cons]
          omega

/-- All that is visible stays exactly if every node keeps what follows its comment. -/
theorem visible_edited_eq_iff (h : Edits lo (marks.map fun mark => mark.1.docEdit mark.2) hi)
    (hstands : ∀ mark ∈ marks, ∃ lo, mark.1.Stands source lo) :
    Text.visible (Text.edited source.chars lo hi (marks.map fun mark => mark.1.docEdit mark.2)) =
        Text.visible
          (Text.edited source.chars lo hi (marks.map fun mark => mark.1.commentEdit mark.2)) ↔
      ∀ mark ∈ marks, mark.1.KeepsAfter := by
  refine ⟨fun heq mark hmark => ?_, visible_edited_eq h hstands⟩
  -- Equal layouts have the same length, and then nothing is left to be lost.
  have hlength := length_visible_edited h hstands
  rw [heq] at hlength
  have hnone : (marks.flatMap fun mark => mark.1.lostText) = [] :=
    List.length_eq_zero_iff.mp (by omega)
  exact mark.1.lostText_eq_nil_iff.mp (List.flatMap_eq_nil_iff.mp hnone mark hmark)

end Marks

namespace Document

variable {reading : Nat} {name t : Text} {document : Document}

/-- The white space around a document is not visible, and no line feed is. -/
theorem visible_trimmed (document : Document) (t : Text) :
    Text.visible (document.trimmed t ++ ['\n']) = Text.visible t := by
  have hbreak : Text.visible ['\n'] = [] := rfl
  rw [Text.visible_append, hbreak, List.append_nil, trimmed, Text.visible_trimEnd]
  split
  · rfl
  · exact Text.visible_trimStart t

/-- The edits that write the documentation of a document in the place of comments alone. -/
def commentEdits (document : Document) : List Edit :=
  document.marks.map fun mark => mark.1.commentEdit mark.2

/-- Documenting a text keeps what is visible outside of the comments that are replaced,
exactly if every documented node keeps what follows its comment. -/
theorem visible_render_documented_iff (h : ofText reading name t = .ok document) :
    Edits 0 document.documented.commentEdits (Text.unixLines t).length ∧
      (Text.visible document.documented.render =
          Text.visible (Text.edited (Text.unixLines t) 0 (Text.unixLines t).length
            document.documented.commentEdits) ↔
        ∀ mark ∈ document.documented.marks, mark.1.KeepsAfter) := by
  obtain ⟨stop, htiles, htrailing, -⟩ := tileAll_of_ofText (ofText_documented h)
  obtain ⟨hedits, hrender⟩ := render_eq_of_tileAll htiles htrailing
  have hstands : ∀ mark ∈ document.documented.marks,
      ∃ lo, mark.1.Stands ⟨reading, Text.unixLines t⟩ lo := fun mark hmark =>
    Node.stands_of_mem_marksAll _ htiles hmark
  rw [hrender, visible_trimmed]
  exact ⟨edits_commentEdit hedits hstands, visible_edited_eq_iff hedits hstands⟩

/-- Nothing is lost where a line ends behind a comment. -/
theorem visible_render_documented_interface :
    ∃ (t : Text) (document : Document), ofText 0 [] t = .ok document ∧
      document.documented.marks.length = 2 ∧
      Edits 0 document.documented.commentEdits (Text.unixLines t).length ∧
      (Text.visible document.documented.render =
          Text.visible (Text.edited (Text.unixLines t) 0 (Text.unixLines t).length
            document.documented.commentEdits) ↔
        ∀ mark ∈ document.documented.marks, mark.1.KeepsAfter) := by
  obtain ⟨document, hread, hlength⟩ := exists_ofText 0 []
    "interface A \x7b\n  // a\n  x: number;\n  /* b */ y: string;\n\x7d".toList
    (fun document => document.documented.marks.length = 2) (by decide +kernel)
  exact ⟨_, document, hread, hlength, visible_render_documented_iff hread⟩

/-- The comma of a member of an enumeration is lost behind the comment of the next one. -/
theorem visible_render_documented_enumeration :
    ∃ document : Document, ofText 0 [] "enum E \x7b A /* x */, B \x7d".toList = .ok document ∧
      Text.visible document.documented.render = "enumE\x7bA/**x*/B\x7d".toList ∧
      Text.visible (Text.edited "enum E \x7b A /* x */, B \x7d".toList 0 23
        document.documented.commentEdits) = "enumE\x7bA/**x*/,B\x7d".toList :=
  exists_ofText _ _ _ _ (by decide +kernel)

end Document

end Typings

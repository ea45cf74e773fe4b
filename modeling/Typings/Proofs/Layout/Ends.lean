import Typings.Proofs.Layout.Separation
import Typings.Proofs.Merging.Exports
import Mathlib.Data.List.Induction

/-!
# The ends of a layout

White space is left out at the end of a laid out document, and in front of its first statement.
A document without statements is its trailing text, which keeps the white space in front of it.

**Seams.**  Statements behind exports are laid out as they are alone, with a seam between them and
the exports.  The seam is what separates two statements, where two statements of different sources
meet.  Otherwise it is the white space around it, of which nothing is left out.
-/

namespace Typings

namespace Text

/-- The text begins with a character that is not blank. -/
def BeginsVisibly (t : Text) : Prop :=
  ∃ x rest, t = x :: rest ∧ isBlank x = false

/-- The text ends with a character that is not blank. -/
def EndsVisibly (t : Text) : Prop :=
  ∃ front x, t = front ++ [x] ∧ isBlank x = false

/-- The white space at the end of a text. -/
def closingBlank (t : Text) : Text :=
  t.drop (trimEnd t).length

variable {t front : Text}

theorem trimEnd_append_closingBlank (t : Text) : trimEnd t ++ closingBlank t = t := by
  obtain ⟨blanks, ht, -⟩ := exists_trimEnd_append t
  have hclosing := congrArg (List.drop (trimEnd t).length) ht
  rw [List.drop_left] at hclosing
  rw [closingBlank, hclosing, ← ht]

theorem BeginsVisibly.exists_mem (h : t.BeginsVisibly) : ∃ x ∈ t, isBlank x = false := by
  obtain ⟨x, rest, rfl, hx⟩ := h
  exact ⟨x, List.mem_cons_self, hx⟩

theorem BeginsVisibly.append (h : t.BeginsVisibly) (rest : Text) :
    (t ++ rest).BeginsVisibly := by
  obtain ⟨x, more, rfl, hx⟩ := h
  exact ⟨x, more ++ rest, rfl, hx⟩

theorem BeginsVisibly.trimEnd (h : t.BeginsVisibly) : (trimEnd t).BeginsVisibly := by
  obtain ⟨x, more, rfl, hx⟩ := h
  exact ⟨x, Text.trimEnd more, trimEnd_cons hx more, hx⟩

theorem BeginsVisibly.trimStart_eq (h : t.BeginsVisibly) : trimStart t = t := by
  obtain ⟨x, more, rfl, hx⟩ := h
  simp [trimStart, hx]

theorem beginsVisibly_trimStart (h : ∃ x ∈ t, isBlank x = false) :
    (trimStart t).BeginsVisibly := by
  obtain ⟨front, x, rest, rfl, hfront, hx⟩ := exists_eq_append_cons h
  exact ⟨x, rest, by rw [trimStart_append_cons hx, trimStart_eq_nil hfront, List.nil_append], hx⟩

theorem beginsVisibly_trim (h : ∃ x ∈ t, isBlank x = false) : (trim t).BeginsVisibly :=
  (beginsVisibly_trimStart h).trimEnd

/-- Only a text that is blank all over has nothing left. -/
theorem exists_mem_of_trim_ne_nil (h : trim t ≠ []) : ∃ x ∈ t, isBlank x = false := by
  simpa using mt trim_eq_nil_iff.mpr h

/-- A text that shows something begins with it, unless there is white space in front. -/
theorem beginsVisibly_iff (h : ∃ x ∈ t, isBlank x = false) :
    t.BeginsVisibly ↔ openingBlank t = [] := by
  constructor
  · rintro ⟨x, rest, rfl, hx⟩
    simp [openingBlank, hx]
  · intro hnone
    have hwhole := openingBlank_append_trimStart t
    rw [hnone, List.nil_append] at hwhole
    exact hwhole ▸ beginsVisibly_trimStart h

/-- White space in front of a text that shows something. -/
theorem trimStart_blanks (hfront : ∀ c ∈ front, isBlank c = true) (h : t.BeginsVisibly) :
    trimStart (front ++ t) = t := by
  obtain ⟨x, rest, rfl, hx⟩ := h
  rw [trimStart_append_cons hx, trimStart_eq_nil hfront, List.nil_append]

theorem isBlank_of_mem_openingBlank {c : Char} (h : c ∈ openingBlank t) : isBlank c = true :=
  List.mem_takeWhile_imp h

theorem endsVisibly_trimEnd (h : ∃ x ∈ t, isBlank x = false) : (trimEnd t).EndsVisibly := by
  induction t using List.reverseRecOn with
  | nil => simp at h
  | append_singleton front x ih =>
      cases hx : isBlank x with
      | false => exact ⟨front, x, trimEnd_concat hx front, hx⟩
      | true =>
          have hnone : trimEnd [x] = [] := trimEnd_eq_nil (by simpa using hx)
          rw [trimEnd_append_of_eq_nil hnone]
          obtain ⟨y, hmem, hy⟩ := h
          refine ih ⟨y, ?_, hy⟩
          rcases List.mem_append.mp hmem with hmem | hmem
          · exact hmem
          · obtain rfl := List.mem_singleton.mp hmem
            rw [hx] at hy
            cases hy

theorem EndsVisibly.trimEnd_append_newline (h : t.EndsVisibly) : trimEnd (t ++ ['\n']) = t := by
  obtain ⟨front, x, rfl, hx⟩ := h
  have hbreak : trimEnd ['\n'] = [] := by decide
  rw [trimEnd_append_of_eq_nil hbreak, trimEnd_concat hx]

end Text

namespace Document

section Fronts

variable {written : Text}

/-- What a text begins with stays in front of the statements that follow. -/
theorem beginsVisibly_appendStatements (h : written.BeginsVisibly) (before : Node)
    (nodes : List Node) : (appendStatements written (some before) nodes).BeginsVisibly := by
  induction nodes generalizing written before with
  | nil => exact h
  | cons node rest ih =>
      refine ih ?_ node
      unfold appendStatement
      dsimp only
      split
      · exact h.append _
      · rw [List.append_assoc]
        exact h.trimEnd.append _

/-- Statements are laid out alike behind any text. -/
theorem appendStatements_behind (front : Text) (h : ∃ x ∈ written, isBlank x = false)
    (before : Node) (nodes : List Node) :
    appendStatements (front ++ written) (some before) nodes =
      front ++ appendStatements written (some before) nodes := by
  induction nodes generalizing written before with
  | nil => rfl
  | cons node rest ih =>
      have hstep : appendStatement (front ++ written) (some before) node =
          front ++ appendStatement written (some before) node := by
        simp only [appendStatement, Text.trimEnd_append h]
        split <;> simp
      have hvisible : ∃ x ∈ appendStatement written (some before) node, isBlank x = false := by
        unfold appendStatement
        dsimp only
        split
        · obtain ⟨x, hmem, hx⟩ := h
          exact ⟨x, List.mem_append_left _ hmem, hx⟩
        · obtain ⟨kept, x, hkept, hx⟩ := Text.endsVisibly_trimEnd h
          exact ⟨x, by simp [hkept], hx⟩
      rw [appendStatements, appendStatements, hstep, ih hvisible]

/-- The layout of a document that begins with a statement. -/
theorem appendStatements_cons (first : Node) (rest : List Node) :
    appendStatements [] none (first :: rest) =
      appendStatements (Text.trimStart first.statementText) (some first) rest := by
  rw [appendStatements, appendStatement, List.nil_append]

end Fronts

section Shape

variable {document : Document}

/-- The statements and the trailing text, before the white space at the end is left out. -/
def layout (document : Document) : Text :=
  appendStatements [] none document.statements ++ document.trailing

theorem render_eq (document : Document) :
    document.render = Text.trimEnd document.layout ++ ['\n'] := rfl

/-- There is something to lay out. -/
def HasContent (document : Document) : Prop :=
  document.statements ≠ [] ∨ ∃ x ∈ document.trailing, isBlank x = false

/-- Every statement has a text that is not blank all over. -/
def ShowsAll (document : Document) : Prop :=
  ∀ node ∈ document.statements, ∃ x ∈ node.statementText, isBlank x = false

theorem beginsVisibly_statements (hshows : document.ShowsAll) (hne : document.statements ≠ []) :
    document.layout.BeginsVisibly := by
  obtain ⟨first, rest, hstatements⟩ := List.exists_cons_of_ne_nil hne
  have hfirst := hshows first (by simp [hstatements])
  rw [layout, hstatements, appendStatements_cons]
  exact (beginsVisibly_appendStatements (Text.beginsVisibly_trimStart hfirst) first rest).append _

theorem exists_mem_layout (hshows : document.ShowsAll) (hcontent : document.HasContent) :
    ∃ x ∈ document.layout, isBlank x = false := by
  by_cases hne : document.statements = []
  · obtain ⟨x, hmem, hx⟩ := hcontent.resolve_left (not_not_intro hne)
    exact ⟨x, List.mem_append_right _ hmem, hx⟩
  · exact (beginsVisibly_statements hshows hne).exists_mem

/-- A rendered document ends with one line feed. -/
theorem render_eq_concat (hshows : document.ShowsAll) (hcontent : document.HasContent) :
    ∃ shown : Text, document.render = shown ++ ['\n'] ∧ shown.EndsVisibly :=
  ⟨_, rfl, Text.endsVisibly_trimEnd (exists_mem_layout hshows hcontent)⟩

/-- A rendered document has the white space in front that its layout has. -/
theorem render_eq_trim (hshows : document.ShowsAll) (hcontent : document.HasContent) :
    document.render =
      Text.openingBlank document.layout ++ (Text.trim document.layout ++ ['\n']) := by
  have hvisible := Text.exists_mem_trimStart (exists_mem_layout hshows hcontent)
  rw [render_eq, Text.trim, ← List.append_assoc, ← Text.trimEnd_append hvisible,
    Text.openingBlank_append_trimStart]

theorem trimStart_render (hshows : document.ShowsAll) (hcontent : document.HasContent) :
    Text.trimStart document.render = Text.trim document.layout ++ ['\n'] := by
  rw [render_eq_trim hshows hcontent]
  exact Text.trimStart_blanks (fun _ => Text.isBlank_of_mem_openingBlank)
    ((Text.beginsVisibly_trim (exists_mem_layout hshows hcontent)).append _)

/-- A rendered document begins with white space only if it has no statement, and has it from its
trailing text. -/
theorem beginsVisibly_render_iff (hshows : document.ShowsAll) (hcontent : document.HasContent) :
    document.render.BeginsVisibly ↔
      document.statements ≠ [] ∨ Text.openingBlank document.trailing = [] := by
  by_cases hne : document.statements = []
  · have hlayout := exists_mem_layout hshows hcontent
    have hrender := render_eq_trim hshows hcontent
    obtain ⟨x, rest, htrim, hx⟩ := (Text.beginsVisibly_trim hlayout).append ['\n']
    rw [htrim, layout, hne, appendStatements, List.nil_append] at hrender
    have hopening : Text.openingBlank document.render = Text.openingBlank document.trailing := by
      rw [hrender, Text.openingBlank_append_cons hx]
      exact List.takeWhile_idem
    rw [Text.beginsVisibly_iff ⟨x, by simp [hrender], hx⟩, hopening]
    simp [hne]
  · exact iff_of_true ((beginsVisibly_statements hshows hne).trimEnd.append _) (.inl hne)

end Shape

section Seams

variable {exports : List Node} {below : Document}

/-- What stands between exports and the document below them. -/
def seam (exports : List Node) (below : Document) : Text :=
  let blanks := Text.closingBlank (appendStatements [] none exports)
  match exports.getLast?, below.statements with
  | some last, first :: _ =>
      if sameSource last first then
        blanks ++ Text.openingBlank first.statementText
      else
        separator last first
  | _, _ => blanks ++ Text.openingBlank below.trailing

/-- The first statement below exports, behind its seam. -/
theorem appendStatement_seam {last first : Node} {rest : List Node}
    (hlast : exports.getLast? = some last) (hstatements : below.statements = first :: rest) :
    appendStatement (appendStatements [] none exports) (some last) first =
      Text.trimEnd (appendStatements [] none exports) ++ seam exports below ++
        Text.trimStart first.statementText := by
  rw [appendStatement, seam, hlast, hstatements]
  dsimp only
  split
  · rw [← List.append_assoc, Text.trimEnd_append_closingBlank, List.append_assoc,
      Text.openingBlank_append_trimStart]
  · rfl

/-- Behind exports and a seam, a document is laid out as it is alone. -/
theorem layout_below (hne : exports ≠ []) (hshows : below.ShowsAll) (name : Text) :
    Document.layout ⟨name, exports ++ below.statements, below.trailing⟩ =
      Text.trimEnd (appendStatements [] none exports) ++ seam exports below ++
        Text.trimStart below.layout := by
  have hlast := List.getLast?_eq_some_getLast hne
  rw [layout, layout, appendStatements_append, hlast, Option.some_or]
  cases hstatements : below.statements with
  | nil =>
      rw [seam, hlast, hstatements]
      dsimp only
      rw [appendStatements, appendStatements, List.nil_append, ← List.append_assoc,
        Text.trimEnd_append_closingBlank, List.append_assoc, Text.openingBlank_append_trimStart]
  | cons first rest =>
      have hfirst := hshows first (by simp [hstatements])
      have hbegins := Text.beginsVisibly_trimStart hfirst
      rw [appendStatements, appendStatement_seam hlast hstatements,
        appendStatements_behind _ hbegins.exists_mem, appendStatements_cons,
        ((beginsVisibly_appendStatements hbegins first rest).append _).trimStart_eq,
        List.append_assoc]

/-- A document below exports is rendered as it is alone, with a seam between the two. -/
theorem render_below (hne : exports ≠ []) (hshows : below.ShowsAll)
    (hcontent : below.HasContent) (name : Text) :
    Document.render ⟨name, exports ++ below.statements, below.trailing⟩ =
      Text.trimEnd (Document.render ⟨[], exports, []⟩) ++ seam exports below ++
        Text.trimStart below.render := by
  have hvisible := Text.exists_mem_trimStart (exists_mem_layout hshows hcontent)
  have habove : Text.trimEnd (Document.render ⟨[], exports, []⟩) =
      Text.trimEnd (appendStatements [] none exports) := by
    have hbreak : Text.trimEnd ['\n'] = [] := by decide
    rw [render_eq, layout, List.append_nil, Text.trimEnd_append_of_eq_nil hbreak,
      Text.trimEnd_trimEnd]
  rw [trimStart_render hshows hcontent, habove, render_eq, layout_below hne hshows,
    Text.trimEnd_append hvisible, Text.trim, List.append_assoc]

/-- Statements of two sources are separated by a blank line. -/
theorem seam_eq_blankLine {last first : Node} (hlast : exports.getLast? = some last)
    (hfirst : below.statements.head? = some first) (hother : sameSource last first = false)
    (hplaced : last.source?.isSome = true ∨ first.source?.isSome = true) :
    seam exports below = ['\n', '\n'] := by
  obtain ⟨rest, hstatements⟩ := List.head?_eq_some_iff.mp hfirst
  rw [seam, hlast, hstatements]
  dsimp only
  rw [if_neg (by simp [hother]), separator, if_neg]
  rcases hplaced with h | h <;> simp [Option.isNone_eq_false_iff.mpr h]

end Seams

end Document

end Typings

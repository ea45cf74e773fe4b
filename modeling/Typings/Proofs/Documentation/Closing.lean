import Typings.Documentation.Comment
import Typings.Proofs.Text.Trimming
import Mathlib.Data.List.Infix

/-!
# Where a rendered comment ends

Documentation is written as a block comment, and a block comment ends at the first terminator
in it.  A rendered comment is therefore closed where it should be if and only if no line of
the documentation holds a terminator.

**Block comments.**  Nothing between the delimiters of a block comment holds a terminator, and
each line that is read is a stretch of that text.

**Line comments.**  A line comment can hold terminators anywhere.  Reading removes one at the
end of the line and no other, so that the comment is closed exactly if the line has its
terminators at the end alone.
-/

namespace Typings

namespace DocComment

section Terminators

/-- What ends a block comment. -/
def terminator : Text :=
  ['*', '/']

/-- A terminator in the text has nothing behind it. -/
def TerminatorsAtEnd (t : Text) : Prop :=
  ∀ before after, t = before ++ terminator ++ after → after = []

/-- The text is one block comment of documentation: it is opened at its front, and its only
terminator is its end. -/
structure IsClosed (t : Text) : Prop where
  opens : "/**".toList <+: t
  closes : terminator <:+ t
  once : TerminatorsAtEnd t

variable {t a b : Text} {x : Char}

theorem terminator_infix_cons :
    terminator <:+: x :: t ↔ (x = '*' ∧ t.head? = some '/') ∨ terminator <:+: t := by
  rw [List.infix_cons_iff]
  refine or_congr_left ?_
  cases t with
  | nil => simp [terminator]
  | cons y rest => simp [terminator, eq_comm]

theorem terminator_ne_nil : terminator ≠ [] := by
  simp [terminator]

theorem no_terminator_of_not_mem (h : '*' ∉ t) : ¬ terminator <:+: t := by
  intro hheld
  exact h (hheld.subset (by simp [terminator]))

/-- No terminator lies across two texts if the first does not end with a star or the second
does not start with a slash. -/
theorem terminator_infix_append (h : a.getLast? ≠ some '*' ∨ b.head? ≠ some '/') :
    terminator <:+: a ++ b ↔ terminator <:+: a ∨ terminator <:+: b := by
  induction a with
  | nil => simp [terminator_ne_nil]
  | cons x rest ih =>
      rw [List.cons_append, terminator_infix_cons, terminator_infix_cons]
      cases rest with
      | nil =>
          have hacross : ¬ (x = '*' ∧ b.head? = some '/') := by
            rintro ⟨rfl, hb⟩
            rcases h with h | h
            · exact h rfl
            · exact h hb
          simp [terminator_ne_nil, hacross]
      | cons y more =>
          rw [ih (by simpa using h)]
          simp [or_assoc]

/-- A text that ends with a terminator has none before it if and only if it has no other. -/
theorem terminatorsAtEnd_append : TerminatorsAtEnd (t ++ terminator) ↔ ¬ terminator <:+: t := by
  constructor
  · rintro h ⟨before, after, rfl⟩
    have hnil := h before (after ++ terminator) (by simp)
    simp [terminator] at hnil
  · intro h before after heq
    rcases List.eq_nil_or_concat after with hnil | ⟨middle, c, rfl⟩
    · exact hnil
    · refine absurd ?_ h
      -- Something stands behind the terminator, so that it starts before the last one does.
      have hfront : t ++ ['*'] = before ++ terminator ++ middle := by
        have hconcat : t ++ ['*'] ++ ['/'] = before ++ terminator ++ middle ++ [c] := by
          simpa [terminator] using heq
        exact (List.append_inj' hconcat rfl).1
      rcases List.eq_nil_or_concat middle with rfl | ⟨more, d, rfl⟩
      · have hlast := congrArg List.getLast? hfront
        simp [terminator] at hlast
      · have hrest : t = before ++ terminator ++ more := by
          have hconcat : t ++ ['*'] = before ++ terminator ++ more ++ [d] := by
            simpa using hfront
          exact (List.append_inj' hconcat rfl).1
        exact ⟨before, more, hrest.symm⟩

/-- Terminators that stand at the end alone are gone once the end is cut off. -/
theorem terminatorsAtEnd_iff :
    TerminatorsAtEnd t ↔ ¬ terminator <:+: (Text.beforeSuffix? terminator t).getD t := by
  cases hcut : Text.beforeSuffix? terminator t with
  | some front =>
      have ht : front ++ terminator = t := List.isSuffixOf?_eq_some_iff_append_eq.mp hcut
      rw [← ht, terminatorsAtEnd_append, Option.getD_some]
  | none =>
      have hsuffix : ¬ terminator <:+ t := by
        rintro ⟨front, ht⟩
        have hsome := List.isSuffixOf?_eq_some_iff_append_eq.mpr ht
        rw [Text.beforeSuffix?] at hcut
        rw [hcut] at hsome
        cases hsome
      rw [Option.getD_none]
      constructor
      · rintro h ⟨before, after, ht⟩
        obtain rfl := h before after ht.symm
        exact hsuffix ⟨before, by simpa using ht⟩
      · rintro h before after rfl
        exact absurd ⟨before, after, rfl⟩ h

end Terminators

section Rendered

variable {indent : Text}

theorem not_mem_indent (h : ∀ c ∈ indent, Text.isIndent c = true) : '*' ∉ indent := by
  intro hmem
  have hstar := h '*' hmem
  simp [Text.isIndent] at hstar

/-- A line in the margin holds a terminator exactly if its content does. -/
theorem terminator_infix_marginLine (h : ∀ c ∈ indent, Text.isIndent c = true)
    (content : Text) :
    terminator <:+: marginLine indent content ↔ terminator <:+: content := by
  have hfront : '*' ∉ '\n' :: indent := by simpa using not_mem_indent h
  have hlast : ('\n' :: indent).getLast? ≠ some '*' :=
    fun hlast => hfront (List.mem_of_getLast? hlast)
  rw [marginLine, ← List.cons_append, terminator_infix_append (.inl hlast)]
  cases content with
  | nil => simp [no_terminator_of_not_mem hfront, terminator_ne_nil, terminator_infix_cons]
  | cons x rest =>
      rw [List.isEmpty_cons, if_neg (by simp), terminator_infix_append (by simp)]
      have hmargin : ¬ terminator <:+: [' ', '*', ' '] := by decide
      simp [no_terminator_of_not_mem hfront, hmargin]

theorem head?_flatMap_marginLine (lines : List Text) :
    (lines.flatMap (marginLine indent)).head? ≠ some '/' := by
  cases lines <;> simp [marginLine]

theorem terminator_infix_flatMap_marginLine (h : ∀ c ∈ indent, Text.isIndent c = true)
    (lines : List Text) :
    terminator <:+: lines.flatMap (marginLine indent) ↔ ∃ line ∈ lines, terminator <:+: line := by
  induction lines with
  | nil => simp [terminator_ne_nil]
  | cons line rest ih =>
      rw [List.flatMap_cons, terminator_infix_append (.inr (head?_flatMap_marginLine rest)),
        terminator_infix_marginLine h, ih]
      simp

/-- Rendered documentation starts as a comment of documentation and ends with a terminator.
What stands before that terminator holds another one exactly if a line does. -/
theorem exists_render_eq (h : ∀ c ∈ indent, Text.isIndent c = true) (doc : DocComment) :
    ∃ front, doc.render indent = front ++ terminator ∧ "/**".toList <+: front ∧
      (terminator <:+: front ↔ ∃ line ∈ doc.lines, terminator <:+: line) := by
  cases doc with
  | line only =>
      refine ⟨"/** ".toList ++ (only ++ [' ']), by simp [render, terminator],
        ⟨' ' :: (only ++ [' ']), by simp⟩, ?_⟩
      rw [terminator_infix_append (by simp), terminator_infix_append (by simp)]
      have hopening : ¬ terminator <:+: ['/', '*', '*', ' '] := by decide
      have hblank : ¬ terminator <:+: [' '] := by decide
      simp [hopening, hblank, lines]
  | block several =>
      refine ⟨"/**".toList ++
          (several.flatMap (marginLine indent) ++ '\n' :: (indent ++ [' '])),
        by simp [render, terminator], ⟨_, rfl⟩, ?_⟩
      have hhead :
          (several.flatMap (marginLine indent) ++ '\n' :: (indent ++ [' '])).head? ≠ some '/' := by
        cases several <;> simp [marginLine]
      have hopening : ¬ terminator <:+: ['/', '*', '*'] := by decide
      have hlast : ¬ terminator <:+: '\n' :: (indent ++ [' ']) :=
        no_terminator_of_not_mem (by simpa using not_mem_indent h)
      rw [terminator_infix_append (.inr hhead), terminator_infix_append (by simp),
        terminator_infix_flatMap_marginLine h]
      simp [hopening, hlast, lines]

/-- Rendered documentation is one closed comment if and only if no line of it holds a
terminator. -/
theorem isClosed_render (h : ∀ c ∈ indent, Text.isIndent c = true) (doc : DocComment) :
    IsClosed (doc.render indent) ↔ ∀ line ∈ doc.lines, ¬ terminator <:+: line := by
  obtain ⟨front, hrender, hopens, hfront⟩ := exists_render_eq h doc
  rw [hrender]
  constructor
  · intro hclosed line hline hheld
    exact terminatorsAtEnd_append.mp hclosed.once (hfront.mpr ⟨line, hline, hheld⟩)
  · intro hlines
    refine ⟨hopens.trans (List.prefix_append ..), List.suffix_append .., ?_⟩
    rw [terminatorsAtEnd_append, hfront]
    rintro ⟨line, hline, hheld⟩
    exact hlines line hline hheld

end Rendered

section Kept

variable {t : Text}

/-- The pieces of a text are stretches of it, and the first one is its front. -/
theorem exists_pieces_eq (mark : Char) (t : Text) :
    ∃ first others, Text.pieces mark t = first :: others ∧ first <+: t ∧
      ∀ piece ∈ others, piece <:+: t := by
  induction t with
  | nil => exact ⟨[], [], rfl, List.prefix_rfl, by simp⟩
  | cons c rest ih =>
      obtain ⟨first, others, hpieces, hfirst, hothers⟩ := ih
      by_cases hc : c = mark
      · refine ⟨[], first :: others, by simp [Text.pieces, hc, hpieces], List.nil_prefix, ?_⟩
        intro piece hpiece
        rcases List.mem_cons.mp hpiece with rfl | hpiece
        · exact List.infix_cons hfirst.isInfix
        · exact List.infix_cons (hothers piece hpiece)
      · refine ⟨c :: first, others, by simp [Text.pieces, hc, hpieces],
          List.cons_prefix_cons.mpr ⟨rfl, hfirst⟩, ?_⟩
        intro piece hpiece
        exact List.infix_cons (hothers piece hpiece)

theorem infix_of_mem_lines {line : Text} (h : line ∈ Text.lines t) : line <:+: t := by
  obtain ⟨first, others, hlines, hfirst, hothers⟩ := exists_pieces_eq '\n' t
  rw [Text.lines, hlines] at h
  rcases List.mem_cons.mp h with rfl | h
  · exact hfirst.isInfix
  · exact hothers line h

theorem infix_of_mem_bodyLines {line : Text} (h : line ∈ bodyLines t) : line <:+: t := by
  unfold bodyLines at h
  split at h
  · simp at h
  · rename_i first others hlines
    refine infix_of_mem_lines (hlines ▸ ?_)
    split at h
    · exact List.mem_cons_of_mem _ h
    · exact h

theorem isInfix_trim (t : Text) : Text.trim t <:+: t := by
  obtain ⟨front, back, ht, -⟩ := Text.exists_append_trim_append t
  exact ⟨front, back, ht.symm⟩

/-- Trimming takes no terminator away. -/
theorem terminator_infix_trim : terminator <:+: Text.trim t ↔ terminator <:+: t := by
  obtain ⟨front, back, ht, hfront, hback⟩ := Text.exists_append_trim_append t
  have hstarFront : '*' ∉ front := fun hmem => by simpa [isBlank] using hfront _ hmem
  have hstarBack : '*' ∉ back := fun hmem => by simpa [isBlank] using hback _ hmem
  have hfrontLast : front.getLast? ≠ some '*' :=
    fun hlast => hstarFront (List.mem_of_getLast? hlast)
  have hbackHead : back.head? ≠ some '/' :=
    fun hhead => by simpa [isBlank] using hback _ (List.mem_of_head? hhead)
  have hsplit : terminator <:+: front ++ Text.trim t ++ back ↔ terminator <:+: Text.trim t := by
    rw [terminator_infix_append (.inr hbackHead), terminator_infix_append (.inl hfrontLast)]
    simp [no_terminator_of_not_mem hstarFront, no_terminator_of_not_mem hstarBack]
  rw [← ht] at hsplit
  exact hsplit.symm

theorem isInfix_afterPrefix? {affix rest : Text} (h : Text.afterPrefix? affix t = some rest) :
    rest <:+: t := by
  have ht : affix ++ rest = t := List.isPrefixOf?_eq_some_iff_append_eq.mp h
  exact ht ▸ (List.suffix_append affix rest).isInfix

theorem isInfix_afterPrefix?_getD (affix t : Text) :
    (Text.afterPrefix? affix t).getD t <:+: t := by
  cases hrest : Text.afterPrefix? affix t with
  | none => exact List.infix_rfl
  | some rest => exact isInfix_afterPrefix? hrest

theorem isInfix_stripLeadingMarker (t : Text) : stripLeadingMarker t <:+: t := by
  unfold stripLeadingMarker
  split
  · rename_i rest hrest
    exact isInfix_afterPrefix? hrest
  · exact isInfix_afterPrefix?_getD _ _

theorem isInfix_beforeSuffix?_getD (affix t : Text) :
    (Text.beforeSuffix? affix t).getD t <:+: t := by
  cases hcut : Text.beforeSuffix? affix t with
  | none => exact List.infix_rfl
  | some front =>
      have ht : front ++ affix = t := List.isSuffixOf?_eq_some_iff_append_eq.mp hcut
      exact ht ▸ (List.prefix_append front affix).isInfix

theorem isInfix_stripDelimiters (t : Text) : stripDelimiters t <:+: t := by
  unfold stripDelimiters
  split
  · rename_i rest hrest
    exact (isInfix_beforeSuffix?_getD _ _).trans (isInfix_afterPrefix? hrest)
  · exact isInfix_afterPrefix?_getD _ _

theorem isInfix_stripMarkers (t : Text) : stripMarkers t <:+: t :=
  (isInfix_trim _).trans ((isInfix_beforeSuffix?_getD _ _).trans (isInfix_stripLeadingMarker t))

/-- What is kept of a line stands in it. -/
theorem isInfix_of_readLine {kept : Text} (h : readLine t = some kept) : kept <:+: t := by
  unfold readLine at h
  split at h
  · obtain rfl := Option.some.inj h
    exact List.nil_infix
  · dsimp only at h
    split at h
    · cases h
    · obtain rfl := Option.some.inj h
      exact (isInfix_stripMarkers _).trans (isInfix_trim t)

/-- What is kept of a line holds a terminator unless those of the line all stand at its end. -/
theorem terminator_infix_stripMarkers :
    ¬ terminator <:+: stripMarkers t ↔ TerminatorsAtEnd (stripLeadingMarker t) := by
  rw [terminatorsAtEnd_iff]
  exact not_congr terminator_infix_trim

theorem lines_of_ofLines {kept : List Text} {doc : DocComment} (h : ofLines kept = some doc) :
    doc.lines = kept := by
  unfold ofLines at h
  split at h
  · cases h
  all_goals
    obtain rfl := Option.some.inj h
    rfl

/-- The documentation that a comment holds is made of the lines that are kept. -/
theorem lines_of_normalize {raw : Text} {doc : DocComment} (h : normalize raw = some doc) :
    doc.lines = (bodyLines (stripDelimiters (Text.trim raw))).filterMap readLine := by
  unfold normalize at h
  dsimp only at h
  split at h
  · cases h
  · exact lines_of_ofLines h

/-- Each line of documentation stands between the delimiters of its comment. -/
theorem infix_of_mem_lines_of_normalize {raw line : Text} {doc : DocComment}
    (h : normalize raw = some doc) (hline : line ∈ doc.lines) :
    line <:+: stripDelimiters (Text.trim raw) := by
  rw [lines_of_normalize h, List.mem_filterMap] at hline
  obtain ⟨content, hcontent, hkept⟩ := hline
  exact (isInfix_of_readLine hkept).trans (infix_of_mem_bodyLines hcontent)

end Kept

section RawComments

/-- The text of a comment as a source can hold it. -/
inductive IsRawComment : Text → Prop
  | line {text : Text} : '\n' ∉ text → IsRawComment ('/' :: '/' :: text)
  | block {body : Text} :
      ¬ terminator <:+: body → IsRawComment ('/' :: '*' :: (body ++ terminator))

theorem isBlank_slash : isBlank '/' = false := by
  decide

/-- Between the delimiters of a block comment stands its body. -/
theorem stripDelimiters_block (body : Text) :
    stripDelimiters (Text.trim ('/' :: '*' :: (body ++ terminator))) = body := by
  have htrim : Text.trim ('/' :: '*' :: (body ++ terminator)) =
      '/' :: '*' :: (body ++ terminator) := by
    have hend := Text.trimEnd_concat isBlank_slash ('/' :: '*' :: (body ++ ['*']))
    rw [Text.trim, Text.trimStart, List.dropWhile_cons_of_neg (by simp [isBlank_slash])]
    simpa [terminator] using hend
  have hopen : Text.afterPrefix? "/*".toList ('/' :: '*' :: (body ++ terminator)) =
      some (body ++ terminator) :=
    List.isPrefixOf?_eq_some_iff_append_eq.mpr rfl
  have hclose : Text.beforeSuffix? "*/".toList (body ++ terminator) = some body :=
    List.isSuffixOf?_eq_some_iff_append_eq.mpr rfl
  rw [stripDelimiters, htrim, hopen]
  simp only [hclose, Option.getD_some]

/-- Behind the marker of a line comment stands its text. -/
theorem stripDelimiters_line (text : Text) :
    stripDelimiters (Text.trim ('/' :: '/' :: text)) = Text.trimEnd text := by
  have htrim : Text.trim ('/' :: '/' :: text) = '/' :: '/' :: Text.trimEnd text := by
    rw [Text.trim, Text.trimStart, List.dropWhile_cons_of_neg (by simp [isBlank_slash]),
      Text.trimEnd_cons isBlank_slash, Text.trimEnd_cons isBlank_slash]
  have hmarker : Text.afterPrefix? "//".toList ('/' :: '/' :: Text.trimEnd text) =
      some (Text.trimEnd text) :=
    List.isPrefixOf?_eq_some_iff_append_eq.mpr rfl
  rw [htrim, stripDelimiters]
  simp only [hmarker, Option.getD_some]
  rfl

/-- A line comment documents with what is kept of its only line. -/
theorem lines_of_normalize_line {text : Text} {doc : DocComment} (hbreak : '\n' ∉ text)
    (h : normalize ('/' :: '/' :: text) = some doc) :
    doc.lines = [stripMarkers (Text.trim text)] := by
  have hlines := lines_of_normalize h
  have hend : '\n' ∉ Text.trimEnd text := by
    obtain ⟨blanks, ht, -⟩ := Text.exists_trimEnd_append text
    intro hmem
    exact hbreak (ht ▸ List.mem_append_left _ hmem)
  have hne : doc.lines ≠ [] := by
    intro hnil
    rw [hnil] at hlines
    rw [normalize, ← hlines] at h
    simp at h
  rw [stripDelimiters_line, bodyLines, Text.lines_of_not_mem hend] at hlines
  dsimp only at hlines
  split at hlines
  · exact absurd hlines hne
  · rename_i hstar
    have hread : readLine (Text.trimEnd text) =
        if (stripMarkers (Text.trim text)).isEmpty then none
        else some (stripMarkers (Text.trim text)) := by
      rw [readLine, if_neg (by simpa [isOpeningStar] using hstar), Text.trim_trimEnd]
    rw [List.filterMap_cons, hread] at hlines
    split at hlines
    · exact absurd hlines hne
    · rename_i kept hkept
      rw [hlines]
      split at hkept
      · cases hkept
      · rw [Option.some.inj hkept, List.filterMap_nil]

/-- **Where rendered documentation is closed.**  Documentation that was read from a block
comment is always rendered as one closed comment, and documentation that was read from a line
comment exactly if the terminators in that line stand at its end. -/
theorem isClosed_render_of_normalize {raw indent : Text} {doc : DocComment}
    (hraw : IsRawComment raw) (hindent : ∀ c ∈ indent, Text.isIndent c = true)
    (hdoc : normalize raw = some doc) :
    IsClosed (doc.render indent) ↔
      ∀ text, raw = '/' :: '/' :: text → TerminatorsAtEnd (stripLeadingMarker (Text.trim text)) := by
  rw [isClosed_render hindent]
  cases hraw with
  | line hbreak =>
      rename_i text
      rw [lines_of_normalize_line hbreak hdoc]
      simp [terminator_infix_stripMarkers]
  | block hbody =>
      rename_i body
      constructor
      · intro _ text hslash
        simp at hslash
      · intro _ line hline hheld
        have hstretch := infix_of_mem_lines_of_normalize hdoc hline
        rw [stripDelimiters_block] at hstretch
        exact hbody (hheld.trans hstretch)

/-- A line comment with a terminator at its end is rendered as one closed comment. -/
theorem isClosed_render_of_normalize_end :
    IsRawComment "// a */".toList ∧ (∀ c ∈ [' ', '\t'], Text.isIndent c = true) ∧
      normalize "// a */".toList = some (.line ['a']) ∧
      IsClosed (render [' ', '\t'] (.line ['a'])) := by
  have hraw : IsRawComment "// a */".toList := .line (by decide)
  have hindent : ∀ c ∈ [' ', '\t'], Text.isIndent c = true := by simp [Text.isIndent]
  have hdoc : normalize "// a */".toList = some (.line ['a']) := by decide
  refine ⟨hraw, hindent, hdoc, (isClosed_render_of_normalize hraw hindent hdoc).mpr ?_⟩
  intro text htext
  obtain rfl : " a */".toList = text := by simpa using htext
  exact terminatorsAtEnd_iff.mpr (by decide)

/-- A line comment can hold a terminator that ends the rendered comment early. -/
theorem exists_not_isClosed :
    ∃ raw doc, IsRawComment raw ∧ normalize raw = some doc ∧ ¬ IsClosed (doc.render []) := by
  refine ⟨"// a */ b".toList, .line "a */ b".toList, .line (by decide), by decide, ?_⟩
  intro hclosed
  have hbehind := hclosed.once "/** a ".toList " b */".toList rfl
  simp at hbehind

end RawComments

end DocComment

end Typings

import Typings.Proofs.Documentation.Content
import Mathlib.Data.List.DropRight

/-!
# White space around the lines of a comment

The documentation in a comment does not depend on how the comment is laid out: on the white space
in front of its lines and behind them, a carriage return at the end of a line included.

**Lines.**  `flushLines` are the lines of a text without the white space around them.  Trimming a
text leaves out the empty ones at both ends.

**Delimiters.**  The delimiters of a comment are found in the text as a whole.  They stand at the
ends of a trimmed text, and no white space is in them, so that they are found in one of two texts
with the same lines exactly if they are found in the other.
-/

namespace Typings

namespace Text

variable {t a b p s front rest : Text} {c : Char}

section Flush

/-- The lines of a text without the white space around each of them. -/
def flushLines (t : Text) : List Text :=
  (lines t).map trim

theorem flushLines_newline_cons (t : Text) : flushLines ('\n' :: t) = [] :: flushLines t := by
  rw [flushLines, lines_newline_cons]
  rfl

/-- White space in front of the first line. -/
theorem flushLines_blank_cons (hc : c ≠ '\n') (hblank : isBlank c = true) (t : Text) :
    flushLines (c :: t) = flushLines t := by
  obtain ⟨first, others, hlines, hcons⟩ := exists_lines_cons hc t
  have hfirst : trim (c :: first) = trim first := by
    rw [trim, trimStart, List.dropWhile_cons_of_pos hblank]
    rfl
  rw [flushLines, flushLines, hcons, hlines, List.map_cons, hfirst, List.map_cons]

/-- A first line that shows something. -/
theorem exists_flushLines_visible_cons (hc : isBlank c = false) (t : Text) :
    ∃ first others, flushLines (c :: t) = first :: others ∧ first ≠ [] := by
  have hne : c ≠ '\n' := by
    rintro rfl
    exact absurd hc (by decide)
  obtain ⟨first, others, -, hcons⟩ := exists_lines_cons hne t
  refine ⟨trim (c :: first), others.map trim, by rw [flushLines, hcons, List.map_cons], ?_⟩
  intro hnil
  have hblank := trim_eq_nil_iff.mp hnil c List.mem_cons_self
  rw [hc] at hblank
  cases hblank

/-- A text is blank all over exactly if its lines are. -/
theorem flushLines_eq_nil_iff :
    (∀ line ∈ flushLines t, line = []) ↔ ∀ c ∈ t, isBlank c = true := by
  induction t with
  | nil => simp [flushLines, lines, pieces, trim, trimStart, trimEnd]
  | cons c rest ih =>
      rw [List.forall_mem_cons, ← ih]
      cases hc : isBlank c with
      | true =>
          by_cases hbreak : c = '\n'
          · simp [hbreak, flushLines_newline_cons]
          · simp [flushLines_blank_cons hbreak hc]
      | false =>
          obtain ⟨first, others, hlines, hne⟩ := exists_flushLines_visible_cons hc rest
          simp [hlines, hne]

end Flush

section Ends

/-- What is put in front of a text stands in front of its first line. -/
theorem exists_lines_append (hp : '\n' ∉ p) (t : Text) :
    ∃ first others, lines t = first :: others ∧ lines (p ++ t) = (p ++ first) :: others := by
  induction p with
  | nil =>
      obtain ⟨first, others, hlines⟩ := List.exists_cons_of_ne_nil (lines_ne_nil t)
      exact ⟨first, others, hlines, hlines⟩
  | cons c p ih =>
      obtain ⟨hc, hp⟩ := not_or.mp (fun hmem => hp (List.mem_cons.mpr hmem))
      obtain ⟨first, others, hlines, happend⟩ := ih hp
      obtain ⟨first', others', hfirst, hcons⟩ := exists_lines_cons (Ne.symm hc) (p ++ t)
      obtain ⟨rfl, rfl⟩ := List.cons.inj (happend.symm.trans hfirst)
      exact ⟨first, others, hlines, hcons⟩

/-- What is put behind a text stands behind its last line. -/
theorem exists_lines_concat (hs : '\n' ∉ s) (t : Text) :
    ∃ others last, lines t = others ++ [last] ∧ lines (t ++ s) = others ++ [last ++ s] := by
  induction t with
  | nil => exact ⟨[], [], rfl, lines_of_not_mem hs⟩
  | cons c rest ih =>
      obtain ⟨others, last, hlines, happend⟩ := ih
      by_cases hc : c = '\n'
      · subst hc
        rw [List.cons_append, lines_newline_cons, lines_newline_cons, hlines, happend]
        exact ⟨[] :: others, last, rfl, rfl⟩
      · obtain ⟨first, more, hfirst, hcons⟩ := exists_lines_cons hc rest
        obtain ⟨first', more', hfirst', hcons'⟩ := exists_lines_cons hc (rest ++ s)
        rw [List.cons_append, hcons, hcons']
        -- The character goes to the front of the last line if that is the only one.
        cases others with
        | nil =>
            obtain ⟨rfl, rfl⟩ := List.cons.inj (hfirst.symm.trans hlines)
            obtain ⟨rfl, rfl⟩ := List.cons.inj (hfirst'.symm.trans happend)
            exact ⟨[], _, rfl, rfl⟩
        | cons line others =>
            obtain ⟨rfl, rfl⟩ := List.cons.inj (hfirst.symm.trans hlines)
            obtain ⟨rfl, rfl⟩ := List.cons.inj (hfirst'.symm.trans happend)
            exact ⟨_ :: others, last, rfl, rfl⟩

/-- The last line stands at the end of the text. -/
theorem suffix_of_lines_eq {others : List Text} {last : Text} (h : lines t = others ++ [last]) :
    last <:+ t := by
  rw [← joinLines_lines t, h]
  clear h
  induction others with
  | nil => exact List.suffix_rfl
  | cons line others ih =>
      obtain ⟨next, more, hmore⟩ := List.exists_cons_of_ne_nil (l := others ++ [last]) (by simp)
      rw [hmore] at ih
      have hjoin : joinLines (line :: others ++ [last]) =
          line ++ ('\n' :: joinLines (next :: more)) := by
        rw [List.cons_append, hmore]
        rfl
      rw [hjoin]
      exact (ih.trans (List.suffix_cons _ _)).trans (List.suffix_append _ _)

theorem lines_concat_newline (t : Text) : lines (t ++ ['\n']) = lines t ++ [[]] := by
  induction t with
  | nil => rfl
  | cons c rest ih =>
      by_cases hc : c = '\n'
      · rw [hc, List.cons_append, lines_newline_cons, lines_newline_cons, ih, List.cons_append]
      · obtain ⟨first, others, hlines, hcons⟩ := exists_lines_cons hc rest
        obtain ⟨first', others', hlines', hcons'⟩ := exists_lines_cons hc (rest ++ ['\n'])
        rw [hlines, hlines', List.cons_append] at ih
        obtain ⟨rfl, rfl⟩ := List.cons.inj ih
        rw [List.cons_append, hcons, hcons', List.cons_append]

/-- White space behind the last line. -/
theorem flushLines_concat_blank (hc : c ≠ '\n') (hblank : isBlank c = true) (t : Text) :
    flushLines (t ++ [c]) = flushLines t := by
  obtain ⟨others, last, hlines, hconcat⟩ :=
    exists_lines_concat (s := [c]) (by simpa using hc.symm) t
  have hlast : trim (last ++ [c]) = trim last := by
    simpa using trim_blanks [] last [c] (by simp) (by simpa using hblank)
  rw [flushLines, flushLines, hlines, hconcat, List.map_append, List.map_append,
    List.map_singleton, hlast, List.map_singleton]

/-- A last line that shows something. -/
theorem exists_flushLines_concat_visible (hc : isBlank c = false) (t : Text) :
    ∃ others last, flushLines (t ++ [c]) = others ++ [last] ∧ last ≠ [] := by
  have hne : '\n' ∉ [c] := by
    rw [List.mem_singleton]
    rintro rfl
    exact absurd hc (by decide)
  obtain ⟨others, last, -, hconcat⟩ := exists_lines_concat hne t
  refine ⟨others.map trim, trim (last ++ [c]), ?_, ?_⟩
  · rw [flushLines, hconcat, List.map_append, List.map_singleton]
  · intro hnil
    have hblank := trim_eq_nil_iff.mp hnil c (by simp)
    rw [hc] at hblank
    cases hblank

/-- Trimming the front of a text leaves out the empty lines there. -/
theorem flushLines_trimStart (h : ∃ x ∈ t, isBlank x = false) :
    flushLines (trimStart t) = (flushLines t).dropWhile List.isEmpty := by
  induction t with
  | nil => simp at h
  | cons c rest ih =>
      cases hc : isBlank c with
      | true =>
          have hrest : ∃ x ∈ rest, isBlank x = false := by simpa [hc] using h
          have htrim : trimStart (c :: rest) = trimStart rest := by
            rw [trimStart, List.dropWhile_cons_of_pos hc, trimStart]
          rw [htrim, ih hrest]
          by_cases hbreak : c = '\n'
          · rw [hbreak, flushLines_newline_cons, List.dropWhile_cons_of_pos rfl]
          · rw [flushLines_blank_cons hbreak hc]
      | false =>
          have htrim : trimStart (c :: rest) = c :: rest := by simp [trimStart, hc]
          obtain ⟨first, others, hlines, hne⟩ := exists_flushLines_visible_cons hc rest
          rw [htrim, hlines, List.dropWhile_cons_of_neg (by simpa using hne)]

/-- Trimming the end of a text leaves out the empty lines there. -/
theorem flushLines_trimEnd (h : ∃ x ∈ t, isBlank x = false) :
    flushLines (trimEnd t) = (flushLines t).rdropWhile List.isEmpty := by
  induction t using List.reverseRecOn with
  | nil => simp at h
  | append_singleton front c ih =>
      cases hc : isBlank c with
      | true =>
          have hfront : ∃ x ∈ front, isBlank x = false := by
            obtain ⟨x, hmem, hx⟩ := h
            refine ⟨x, (List.mem_append.mp hmem).resolve_right fun hlast => ?_, hx⟩
            rw [List.mem_singleton.mp hlast, hc] at hx
            cases hx
          have hnil : trimEnd [c] = [] := trimEnd_eq_nil (by simpa using hc)
          rw [trimEnd_append_of_eq_nil hnil, ih hfront]
          by_cases hbreak : c = '\n'
          · have hlines : flushLines (front ++ ['\n']) = flushLines front ++ [[]] := by
              rw [flushLines, lines_concat_newline, List.map_append]
              rfl
            rw [hbreak, hlines, List.rdropWhile_concat_pos _ _ _ rfl]
          · rw [flushLines_concat_blank hbreak hc]
      | false =>
          obtain ⟨others, last, hlines, hne⟩ := exists_flushLines_concat_visible hc front
          rw [trimEnd_concat hc, hlines, List.rdropWhile_concat_neg _ _ _ (by simpa using hne)]

end Ends

section SameLines

/-- Two texts have as many lines as each other, and the same ones but for the white space around
them. -/
def SameLines (a b : Text) : Prop :=
  flushLines a = flushLines b

theorem SameLines.symm (h : SameLines a b) : SameLines b a :=
  Eq.symm h

theorem SameLines.getD {cut cut' : Option Text} (hcut : Option.Rel SameLines cut cut')
    (h : SameLines a b) : SameLines (cut.getD a) (cut'.getD b) := by
  cases hcut with
  | some hrest => exact hrest
  | none => exact h

theorem SameLines.trim (h : SameLines a b) : SameLines (trim a) (trim b) := by
  have hblank : (∀ c ∈ a, isBlank c = true) ↔ ∀ c ∈ b, isBlank c = true := by
    rw [← flushLines_eq_nil_iff, ← flushLines_eq_nil_iff, h]
  by_cases hall : ∀ c ∈ a, isBlank c = true
  · rw [trim_eq_nil_iff.mpr hall, trim_eq_nil_iff.mpr (hblank.mp hall)]
    rfl
  · have hvisible : ∃ x ∈ a, isBlank x = false := by simpa using hall
    have hvisible' : ∃ x ∈ b, isBlank x = false := by simpa using mt hblank.mpr hall
    have hlines : ∀ {t : Text}, (∃ x ∈ t, isBlank x = false) → flushLines (Text.trim t) =
        ((flushLines t).dropWhile List.isEmpty).rdropWhile List.isEmpty := fun hv => by
      rw [Text.trim, flushLines_trimEnd (exists_mem_trimStart hv), flushLines_trimStart hv]
    rw [SameLines, hlines hvisible, hlines hvisible', h]

/-- The front of a text that does not begin with white space does not begin with any either. -/
theorem trimStart_of_prefix (h : trimStart t = t) (hfront : front <+: t) :
    trimStart front = front := by
  obtain ⟨back, rfl⟩ := hfront
  cases front with
  | nil => rfl
  | cons x more =>
      cases hx : isBlank x with
      | false => simp [trimStart, hx]
      | true =>
          have hlength := congrArg List.length h
          rw [List.cons_append, trimStart, List.dropWhile_cons_of_pos hx] at hlength
          have hshort := (List.dropWhile_suffix (l := more ++ back) isBlank).length_le
          rw [List.length_cons] at hlength
          omega

/-- The end of a text that does not end with white space does not end with any either. -/
theorem trimEnd_of_append (h : trimEnd (front ++ t) = front ++ t) : trimEnd t = t := by
  by_cases hall : ∀ c ∈ t, isBlank c = true
  · rw [trimEnd_append_of_eq_nil (trimEnd_eq_nil hall)] at h
    have hlength := congrArg List.length h
    obtain ⟨blanks, hfront, -⟩ := exists_trimEnd_append front
    have hshort := congrArg List.length hfront
    rw [List.length_append] at hlength hshort
    rw [List.eq_nil_of_length_eq_zero (l := t) (by omega), trimEnd]
  · rw [trimEnd_append (by simpa using hall)] at h
    exact List.append_cancel_left h

/-- Nothing is left out at either end of a trimmed text. -/
theorem trimStart_and_trimEnd_of_trim (h : trim t = t) : trimStart t = t ∧ trimEnd t = t := by
  have hend : trimEnd t = t := by
    rw [← h, trim, trimEnd_trimEnd]
  refine ⟨(List.dropWhile_suffix isBlank).eq_of_length_le ?_, hend⟩
  obtain ⟨blanks, hstart, -⟩ := exists_trimEnd_append (trimStart t)
  have hlength := congrArg List.length hstart
  rw [List.length_append, ← trim, h] at hlength
  exact Nat.le_of_add_right_le hlength.ge

/-- What shows in front of a text is not trimmed. -/
theorem trim_visible_append (hp : ∀ c ∈ p, isBlank c = false) (hne : p ≠ []) (t : Text) :
    trim (p ++ t) = p ++ trimEnd t := by
  have hstart : trimStart (p ++ t) = p ++ t := by
    cases p with
    | nil => exact absurd rfl hne
    | cons x p => simp [trimStart, hp x List.mem_cons_self]
  have hend : trimEnd (p ++ t) = p ++ trimEnd t := by
    clear hstart hne
    induction p with
    | nil => rfl
    | cons x p ih =>
        obtain ⟨hx, hp⟩ := List.forall_mem_cons.mp hp
        rw [List.cons_append, trimEnd_cons hx, ih hp, List.cons_append]
  rw [trim, hstart, hend]

/-- What shows behind a text is not trimmed. -/
theorem trim_append_visible (hs : ∀ c ∈ s, isBlank c = false) (hne : s ≠ []) (t : Text) :
    trim (t ++ s) = trimStart t ++ s := by
  obtain ⟨x, more, rfl⟩ := List.exists_cons_of_ne_nil hne
  have hx := hs x List.mem_cons_self
  have hend : trimEnd (x :: more) = x :: more := by
    have htrim := trim_eq_self hs
    rwa [trim, trimStart, List.dropWhile_cons_of_neg (by simpa using hx)] at htrim
  rw [trim, trimStart_append_cons hx, trimEnd_append ⟨x, List.mem_cons_self, hx⟩, hend]

theorem newline_not_mem_of_visible (hp : ∀ c ∈ p, isBlank c = false) : '\n' ∉ p := fun hmem =>
  absurd (hp _ hmem) (by decide)

/-- What shows in front of a text stands in front of every trimmed text with the same lines. -/
theorem SameLines.exists_eq_append (hp : ∀ c ∈ p, isBlank c = false) (hne : p ≠ [])
    (hb : trimStart b = b) (h : SameLines (p ++ rest) b) :
    ∃ rest', b = p ++ rest' ∧ SameLines rest rest' := by
  have hbreak := newline_not_mem_of_visible hp
  obtain ⟨first, others, hrest, happend⟩ := exists_lines_append hbreak rest
  obtain ⟨first', others', hlines, hfirst', -⟩ := DocComment.exists_pieces_eq '\n' b
  obtain ⟨hfirst, hothers⟩ : Text.trim (p ++ first) = Text.trim first' ∧
      others.map Text.trim = others'.map Text.trim := by
    rw [SameLines, flushLines, flushLines, happend, lines, hlines] at h
    exact List.cons.inj h
  rw [trim_visible_append hp hne] at hfirst
  -- The first line of the trimmed text begins where the text does, so it is not trimmed there.
  have hprefix : p <+: first' := by
    have hstart : trimStart first' = first' := trimStart_of_prefix hb hfirst'
    obtain ⟨blanks, hend, -⟩ := exists_trimEnd_append first'
    rw [Text.trim, hstart] at hfirst
    rw [← hfirst, List.append_assoc] at hend
    exact ⟨_, hend.symm⟩
  obtain ⟨rest', rfl⟩ := hprefix.trans hfirst'
  obtain ⟨first'', others'', hrest', happend'⟩ := exists_lines_append hbreak rest'
  rw [lines, hlines] at happend'
  obtain ⟨rfl, rfl⟩ := List.cons.inj happend'
  rw [trim_visible_append hp hne] at hfirst
  have hends := List.append_cancel_left hfirst
  refine ⟨rest', rfl, ?_⟩
  rw [SameLines, flushLines, flushLines, hrest, hrest', List.map_cons, List.map_cons, hothers,
    ← trim_trimEnd first, hends, trim_trimEnd]

/-- What shows behind a text stands behind every trimmed text with the same lines. -/
theorem SameLines.exists_append_eq (hs : ∀ c ∈ s, isBlank c = false) (hne : s ≠ [])
    (hb : trimEnd b = b) (h : SameLines (front ++ s) b) :
    ∃ front', b = front' ++ s ∧ SameLines front front' := by
  have hbreak := newline_not_mem_of_visible hs
  obtain ⟨others, last, hfront, hconcat⟩ := exists_lines_concat hbreak front
  obtain ⟨others', last', hlines, -⟩ := exists_lines_concat (s := []) (by simp) b
  obtain ⟨hothers, hlast⟩ : others.map Text.trim = others'.map Text.trim ∧
      Text.trim (last ++ s) = Text.trim last' := by
    rw [SameLines, flushLines, flushLines, hconcat, hlines, List.map_append, List.map_append] at h
    obtain ⟨hothers, hlast⟩ := List.append_inj' h rfl
    exact ⟨hothers, List.singleton_inj.mp hlast⟩
  rw [trim_append_visible hs hne] at hlast
  -- The last line of the trimmed text ends where the text does, so it is not trimmed there.
  have hsuffix : s <:+ last' := by
    obtain ⟨before, hbefore⟩ := suffix_of_lines_eq hlines
    have hopening := openingBlank_append_trimStart last'
    have hwhole : trimEnd (before ++ openingBlank last' ++ trimStart last') =
        before ++ openingBlank last' ++ trimStart last' := by
      rw [List.append_assoc, hopening, hbefore, hb]
    rw [Text.trim, trimEnd_of_append hwhole] at hlast
    rw [← hlast, ← List.append_assoc] at hopening
    exact ⟨_, hopening⟩
  obtain ⟨front', rfl⟩ := hsuffix.trans (suffix_of_lines_eq hlines)
  obtain ⟨others'', last'', hfront', hconcat'⟩ := exists_lines_concat hbreak front'
  rw [hlines] at hconcat'
  obtain ⟨rfl, hsingle⟩ := List.append_inj' hconcat' rfl
  obtain rfl := List.singleton_inj.mp hsingle
  rw [trim_append_visible hs hne] at hlast
  have hstarts := List.append_cancel_right hlast
  refine ⟨front', rfl, ?_⟩
  rw [SameLines, flushLines, flushLines, hfront, hfront', List.map_append, List.map_append,
    hothers, List.map_singleton, List.map_singleton, Text.trim, hstarts, ← Text.trim]

/-- What shows is taken off the front of two trimmed texts with the same lines, or of neither. -/
theorem SameLines.afterPrefix? (hp : ∀ c ∈ p, isBlank c = false) (hne : p ≠ [])
    (ha : trimStart a = a) (hb : trimStart b = b) (h : SameLines a b) :
    Option.Rel SameLines (afterPrefix? p a) (afterPrefix? p b) := by
  cases hcut : Text.afterPrefix? p a with
  | some rest =>
      obtain rfl : p ++ rest = a := List.isPrefixOf?_eq_some_iff_append_eq.mp hcut
      obtain ⟨rest', rfl, hrest⟩ := h.exists_eq_append hp hne hb
      have hcut' : Text.afterPrefix? p (p ++ rest') = some rest' :=
        List.isPrefixOf?_eq_some_iff_append_eq.mpr rfl
      rw [hcut']
      exact .some hrest
  | none =>
      cases hcut' : Text.afterPrefix? p b with
      | none => exact .none
      | some rest' =>
          obtain rfl : p ++ rest' = b := List.isPrefixOf?_eq_some_iff_append_eq.mp hcut'
          obtain ⟨rest, rfl, -⟩ := h.symm.exists_eq_append hp hne ha
          have hsome : Text.afterPrefix? p (p ++ rest) = some rest :=
            List.isPrefixOf?_eq_some_iff_append_eq.mpr rfl
          rw [hsome] at hcut
          cases hcut

/-- What shows is taken off the end of two trimmed texts with the same lines, or of neither. -/
theorem SameLines.beforeSuffix? (hs : ∀ c ∈ s, isBlank c = false) (hne : s ≠ [])
    (ha : trimEnd a = a) (hb : trimEnd b = b) (h : SameLines a b) :
    Option.Rel SameLines (beforeSuffix? s a) (beforeSuffix? s b) := by
  cases hcut : Text.beforeSuffix? s a with
  | some front =>
      obtain rfl : front ++ s = a := List.isSuffixOf?_eq_some_iff_append_eq.mp hcut
      obtain ⟨front', rfl, hfront⟩ := h.exists_append_eq hs hne hb
      have hcut' : Text.beforeSuffix? s (front' ++ s) = some front' :=
        List.isSuffixOf?_eq_some_iff_append_eq.mpr rfl
      rw [hcut']
      exact .some hfront
  | none =>
      cases hcut' : Text.beforeSuffix? s b with
      | none => exact .none
      | some front' =>
          obtain rfl : front' ++ s = b := List.isSuffixOf?_eq_some_iff_append_eq.mp hcut'
          obtain ⟨front, rfl, -⟩ := h.symm.exists_append_eq hs hne ha
          have hsome : Text.beforeSuffix? s (front ++ s) = some front :=
            List.isSuffixOf?_eq_some_iff_append_eq.mpr rfl
          rw [hsome] at hcut
          cases hcut

end SameLines

end Text

namespace DocComment

variable {a b raw other : Text}

/-- Between the delimiters of two trimmed comments with the same lines stand the same lines. -/
theorem sameLines_stripDelimiters (ha : Text.trim a = a) (hb : Text.trim b = b)
    (h : Text.SameLines a b) : Text.SameLines (stripDelimiters a) (stripDelimiters b) := by
  obtain ⟨hastart, haend⟩ := Text.trimStart_and_trimEnd_of_trim ha
  obtain ⟨hbstart, hbend⟩ := Text.trimStart_and_trimEnd_of_trim hb
  have hopening := h.afterPrefix? (p := "/*".toList) (by simp [isBlank]) (by decide)
    hastart hbstart
  rw [stripDelimiters, stripDelimiters]
  cases hblock : Text.afterPrefix? "/*".toList a with
  | some rest =>
      rw [hblock] at hopening
      cases hblock' : Text.afterPrefix? "/*".toList b with
      | none =>
          rw [hblock'] at hopening
          cases hopening
      | some rest' =>
          rw [hblock'] at hopening
          cases hopening with
          | some hrest =>
              -- What stands behind the opening ends where the comment does.
              obtain rfl : "/*".toList ++ rest = a :=
                List.isPrefixOf?_eq_some_iff_append_eq.mp hblock
              obtain rfl : "/*".toList ++ rest' = b :=
                List.isPrefixOf?_eq_some_iff_append_eq.mp hblock'
              have hclosing := hrest.beforeSuffix? (s := "*/".toList) (by simp [isBlank]) (by decide)
                (Text.trimEnd_of_append haend) (Text.trimEnd_of_append hbend)
              exact Text.SameLines.getD hclosing hrest
  | none =>
      rw [hblock] at hopening
      cases hblock' : Text.afterPrefix? "/*".toList b with
      | some rest' =>
          rw [hblock'] at hopening
          cases hopening
      | none =>
          exact Text.SameLines.getD
            (h.afterPrefix? (by simp [isBlank]) (by decide) hastart hbstart) h

/-- The same documentation is read from two bodies with the same lines. -/
theorem filterMap_readLine_bodyLines (h : Text.SameLines a b) :
    (bodyLines a).filterMap readLine = (bodyLines b).filterMap readLine := by
  have hread : ∀ ls : List Text, ls.filterMap readLine = (ls.map Text.trim).filterMap readLine := by
    intro ls
    have hline : readLine ∘ Text.trim = readLine :=
      funext fun line => readLine_eq_of_trim_eq (Text.trim_trim line)
    rw [List.filterMap_map, hline]
  obtain ⟨first, others, hlines⟩ := List.exists_cons_of_ne_nil (Text.lines_ne_nil a)
  obtain ⟨first', others', hlines'⟩ := List.exists_cons_of_ne_nil (Text.lines_ne_nil b)
  rw [Text.SameLines, Text.flushLines, Text.flushLines, hlines, hlines'] at h
  obtain ⟨hfirst, hothers⟩ := List.cons.inj h
  have hstar : isOpeningStar first = isOpeningStar first' := by
    rw [isOpeningStar, isOpeningStar, hfirst]
  simp only [bodyLines, hlines, hlines', hstar]
  split
  · rw [hread others, hothers, ← hread]
  · rw [hread (first :: others), h, ← hread]

/-- **Layout does not matter**: the documentation in two comments with the same lines is the same,
whatever white space is around the lines. -/
theorem normalize_eq_of_sameLines (raw other : Text) (h : Text.SameLines raw other) :
    normalize raw = normalize other := by
  have hbody :
      Text.SameLines (stripDelimiters (Text.trim raw)) (stripDelimiters (Text.trim other)) :=
    sameLines_stripDelimiters (Text.trim_trim raw) (Text.trim_trim other) h.trim
  rw [normalize, normalize, filterMap_readLine_bodyLines hbody]

/-- A comment with tabs, trailing white space and carriage returns, and the same comment without
them. -/
theorem normalize_eq_of_sameLines_returns :
    Text.SameLines "\n\t/** A.  \r\n\t  *\r\n\t  * @param x  B. \r\n\t  */\r".toList
        "\n/** A.\n*\n* @param x  B.\n*/".toList ∧
      normalize "\n\t/** A.  \r\n\t  *\r\n\t  * @param x  B. \r\n\t  */\r".toList =
        normalize "\n/** A.\n*\n* @param x  B.\n*/".toList ∧
      normalize "\n/** A.\n*\n* @param x  B.\n*/".toList =
        some (.block ["A.".toList, [], "@param x  B.".toList]) := by
  have hsame : Text.SameLines
      "\n\t/** A.  \r\n\t  *\r\n\t  * @param x  B. \r\n\t  */\r".toList
      "\n/** A.\n*\n* @param x  B.\n*/".toList := by
    unfold Text.SameLines
    decide
  exact ⟨hsame, normalize_eq_of_sameLines _ _ hsame, by decide⟩

end DocComment

end Typings

import Typings.Proofs.Documentation.Content
import Typings.Proofs.Layout.Copy

/-!
# Comments that document nothing

One marker is taken off the front of a line and one terminator off its end.  A line of which
nothing is left is idle, and a comment documents nothing exactly if all of its lines are.

**Markers.**  An idle line is empty or one marker, and in a line comment a terminator may stand
behind the marker.  Nothing between the delimiters of a block comment holds a terminator.

**Rulers.**  A comment can be made of markers and still be read as documentation, where more than
one of them stands on a line.
-/

namespace Typings

namespace DocComment

section Idle

/-- One marker, as it stands at the front of a line. -/
inductive IsMark : Text → Prop
  | star : IsMark ['*']
  | slashes : IsMark ['/', '/']

/-- A trimmed line of which nothing is left: it is empty or a marker, alone or in front of a
terminator. -/
inductive IsIdle : Text → Prop
  | empty : IsIdle []
  | bare {mark : Text} : IsMark mark → IsIdle mark
  | closed {mark blanks : Text} : IsMark mark → (∀ c ∈ blanks, isBlank c = true) →
      IsIdle (mark ++ (blanks ++ terminator))

variable {mark t line raw body : Text}

theorem stripLeadingMarker_append (h : IsMark mark) (rest : Text) :
    stripLeadingMarker (mark ++ rest) = rest := by
  cases h with
  | star =>
      have hstar : Text.afterPrefix? "*".toList (['*'] ++ rest) = some rest :=
        List.isPrefixOf?_eq_some_iff_append_eq.mpr rfl
      rw [stripLeadingMarker, hstar]
  | slashes =>
      have hstar : Text.afterPrefix? "*".toList (['/', '/'] ++ rest) = none := rfl
      have hslashes : Text.afterPrefix? "//".toList (['/', '/'] ++ rest) = some rest :=
        List.isPrefixOf?_eq_some_iff_append_eq.mpr rfl
      rw [stripLeadingMarker, hstar, hslashes]
      rfl

/-- A marker stands at the front of the line, or the line is left as it is. -/
theorem stripLeadingMarker_cases (t : Text) :
    (∃ mark, IsMark mark ∧ t = mark ++ stripLeadingMarker t) ∨
      stripLeadingMarker t = t ∧ t.head? ≠ some '*' := by
  cases hstar : Text.afterPrefix? "*".toList t with
  | some rest =>
      obtain rfl : ['*'] ++ rest = t := List.isPrefixOf?_eq_some_iff_append_eq.mp hstar
      exact .inl ⟨['*'], .star, by rw [stripLeadingMarker_append .star]⟩
  | none =>
      cases hslashes : Text.afterPrefix? "//".toList t with
      | some rest =>
          obtain rfl : ['/', '/'] ++ rest = t :=
            List.isPrefixOf?_eq_some_iff_append_eq.mp hslashes
          exact .inl ⟨['/', '/'], .slashes, by rw [stripLeadingMarker_append .slashes]⟩
      | none =>
          refine .inr ⟨?_, ?_⟩
          · rw [stripLeadingMarker, hstar, hslashes]
            rfl
          · intro hhead
            obtain ⟨rest, rfl⟩ := List.head?_eq_some_iff.mp hhead
            have hsome : Text.afterPrefix? "*".toList ('*' :: rest) = some rest :=
              List.isPrefixOf?_eq_some_iff_append_eq.mpr rfl
            rw [hsome] at hstar
            cases hstar

/-- Nothing is left of white space, with a terminator behind it or without one. -/
theorem trim_beforeSuffix?_getD_eq_nil_iff :
    Text.trim ((Text.beforeSuffix? terminator t).getD t) = [] ↔
      (∀ c ∈ t, isBlank c = true) ∨
        ∃ blanks, t = blanks ++ terminator ∧ ∀ c ∈ blanks, isBlank c = true := by
  rw [Text.trim_eq_nil_iff]
  cases hcut : Text.beforeSuffix? terminator t with
  | some front =>
      obtain rfl : front ++ terminator = t := List.isSuffixOf?_eq_some_iff_append_eq.mp hcut
      rw [Option.getD_some]
      constructor
      · exact fun hblank => .inr ⟨front, rfl, hblank⟩
      · rintro (hblank | ⟨blanks, heq, hblank⟩)
        · exact fun c hc => hblank c (List.mem_append_left _ hc)
        · rwa [List.append_cancel_right heq]
  | none =>
      rw [Option.getD_none, or_iff_left]
      rintro ⟨blanks, rfl, -⟩
      have hsome : Text.beforeSuffix? terminator (blanks ++ terminator) = some blanks :=
        List.isSuffixOf?_eq_some_iff_append_eq.mpr rfl
      rw [hsome] at hcut
      cases hcut

/-- A trimmed line is idle exactly if nothing is left of it. -/
theorem stripMarkers_eq_nil_iff (htrim : Text.trim t = t) : stripMarkers t = [] ↔ IsIdle t := by
  have hstrip : stripMarkers t = Text.trim ((Text.beforeSuffix? terminator
      (stripLeadingMarker t)).getD (stripLeadingMarker t)) := rfl
  rw [hstrip, trim_beforeSuffix?_getD_eq_nil_iff]
  constructor
  · intro hleft
    rcases stripLeadingMarker_cases t with ⟨mark, hmark, ht⟩ | ⟨hsame, hhead⟩
    · rcases hleft with hblank | ⟨blanks, hrest, hblank⟩
      · have hnil := Text.eq_nil_of_trim_append (ht ▸ htrim) hblank
        rw [hnil, List.append_nil] at ht
        exact ht ▸ .bare hmark
      · rw [ht, hrest]
        exact .closed hmark hblank
    · rw [hsame] at hleft
      rcases hleft with hblank | ⟨blanks, rfl, hblank⟩
      · rw [← htrim, Text.trim_eq_nil_iff.mpr hblank]
        exact .empty
      · -- The white space in front would have been trimmed, and the terminator starts with a star.
        have hcut : Text.trim (blanks ++ terminator) = Text.trim terminator := by
          simpa using Text.trim_blanks blanks terminator [] hblank (by simp)
        have hterminator : Text.trim terminator = terminator := by decide
        obtain rfl : blanks = [] := by
          simpa [hterminator] using hcut.symm.trans htrim
        exact absurd rfl hhead
  · intro hidle
    cases hidle with
    | empty =>
        have hrest : stripLeadingMarker [] = [] := rfl
        exact .inl (by simp [hrest])
    | bare hmark =>
        have hrest := stripLeadingMarker_append hmark []
        rw [List.append_nil] at hrest
        exact .inl (by simp [hrest])
    | closed hmark hblank =>
        exact .inr ⟨_, stripLeadingMarker_append hmark _, hblank⟩

/-- What is kept of a line is empty exactly if the line is idle. -/
theorem forall_mem_readLine_iff :
    (∀ kept ∈ readLine line, kept = []) ↔ IsIdle (Text.trim line) := by
  rw [readLine]
  split
  · rename_i hstar
    simpa [hstar] using IsIdle.bare .star
  · rw [← stripMarkers_eq_nil_iff (Text.trim_trim line)]
    dsimp only
    split
    · rename_i hempty
      simpa using hempty
    · simp

/-- A comment documents nothing exactly if all of its lines are idle. -/
theorem normalize_eq_none_iff_lines :
    normalize raw = none ↔
      ∀ line ∈ Text.lines (stripDelimiters (Text.trim raw)), IsIdle (Text.trim line) := by
  have hkept : normalize raw = none ↔
      ∀ line ∈ bodyLines (stripDelimiters (Text.trim raw)), IsIdle (Text.trim line) := by
    rw [normalize_eq_none_iff_keptLines, keptLines, List.forall_mem_filterMap]
    exact forall₂_congr fun line _ => forall_mem_readLine_iff
  rw [hkept, bodyLines]
  split
  · rename_i hnil
    exact absurd hnil (Text.lines_ne_nil _)
  · rename_i first others hlines
    rw [hlines, List.forall_mem_cons]
    split
    · rename_i hstar
      have hfirst : Text.trim first = ['*'] := by simpa [isOpeningStar] using hstar
      rw [hfirst, and_iff_right (IsIdle.bare .star)]
    · rw [List.forall_mem_cons]

end Idle

section Comments

variable {raw body line : Text}

/-- A comment of markers: every line of it is empty or one marker, where in a line comment a
terminator may stand behind the marker. -/
inductive SaysNothing : Text → Prop
  | line {text : Text} : IsIdle (Text.trim text) → SaysNothing ('/' :: '/' :: text)
  | block {body : Text} :
      (∀ line ∈ Text.lines body, Text.trim line = [] ∨ IsMark (Text.trim line)) →
      SaysNothing ('/' :: '*' :: (body ++ terminator))

/-- No terminator stands on an idle line of a block comment. -/
theorem isIdle_iff_of_mem_lines (hbody : ¬ terminator <:+: body) (hline : line ∈ Text.lines body) :
    IsIdle (Text.trim line) ↔ Text.trim line = [] ∨ IsMark (Text.trim line) := by
  have hstretch : Text.trim line <:+: body := (isInfix_trim line).trans (infix_of_mem_lines hline)
  generalize Text.trim line = t at hstretch
  constructor
  · intro hidle
    cases hidle with
    | empty => exact .inl rfl
    | bare hmark => exact .inr hmark
    | @closed mark blanks _ _ =>
        have hheld : terminator <:+: mark ++ (blanks ++ terminator) :=
          ⟨mark ++ blanks, [], by simp⟩
        exact absurd (hheld.trans hstretch) hbody
  · rintro (rfl | hmark)
    · exact .empty
    · exact .bare hmark

/-- A comment that documents nothing has no content. -/
theorem content_of_normalize_eq_none (h : normalize raw = none) : content raw = [] := by
  have hcontent := flatMap_content_keptLines raw
  rw [← hcontent, List.flatMap_eq_nil_iff]
  intro line hline
  rw [normalize_eq_none_iff_keptLines.mp h line hline, content_nil]

/-- **Which comments document nothing**: those of which every line is a marker by itself.  Such a
comment has no content. -/
theorem normalize_eq_none_iff (hraw : IsRawComment raw) :
    (normalize raw = none ↔ SaysNothing raw) ∧ (normalize raw = none → content raw = []) := by
  refine ⟨?_, content_of_normalize_eq_none⟩
  rw [normalize_eq_none_iff_lines]
  cases hraw with
  | @line text hbreak =>
      have hend : '\n' ∉ Text.trimEnd text := by
        obtain ⟨blanks, ht, -⟩ := Text.exists_trimEnd_append text
        intro hmem
        exact hbreak (ht ▸ List.mem_append_left _ hmem)
      rw [stripDelimiters_line, Text.lines_of_not_mem hend, List.forall_mem_singleton,
        Text.trim_trimEnd]
      constructor
      · exact .line
      · intro hnothing
        cases hnothing with
        | line hidle => exact hidle
  | @block body hbody =>
      rw [stripDelimiters_block]
      constructor
      · intro hidle
        exact .block fun line hline => (isIdle_iff_of_mem_lines hbody hline).mp (hidle line hline)
      · generalize hraw : '/' :: '*' :: (body ++ terminator) = raw
        intro hnothing line hline
        cases hnothing with
        | line _ => simp at hraw
        | @block other hmarks =>
            obtain rfl : body = other := by simpa using hraw
            exact (isIdle_iff_of_mem_lines hbody hline).mpr (hmarks line hline)

/-- A block comment with a star, two slashes and white space on its lines. -/
theorem normalize_eq_none_iff_margin :
    IsRawComment "/**\n *\n\t//\n */".toList ∧ SaysNothing "/**\n *\n\t//\n */".toList ∧
      normalize "/**\n *\n\t//\n */".toList = none ∧
      content "/**\n *\n\t//\n */".toList = [] := by
  have hbody : ¬ terminator <:+: "*\n *\n\t//\n ".toList := by decide
  have hraw : IsRawComment "/**\n *\n\t//\n */".toList := .block hbody
  have hnone : normalize "/**\n *\n\t//\n */".toList = none := by decide
  obtain ⟨hiff, hcontent⟩ := normalize_eq_none_iff hraw
  exact ⟨hraw, hiff.mp hnone, hnone, hcontent hnone⟩

/-- A row of stars is documentation from the second star between its delimiters on. -/
theorem normalize_stars_eq_none_iff (n : Nat) :
    normalize ('/' :: '*' :: (List.replicate n '*' ++ terminator)) = none ↔ n ≤ 1 := by
  have hbreak : '\n' ∉ List.replicate n '*' := by simp [List.mem_replicate]
  have htrim : Text.trim (List.replicate n '*') = List.replicate n '*' := by
    refine Text.trim_eq_self fun c hc => ?_
    rw [List.eq_of_mem_replicate hc]
    decide
  rw [normalize_eq_none_iff_lines, stripDelimiters_block, Text.lines_of_not_mem hbreak,
    List.forall_mem_singleton, htrim]
  constructor
  · generalize hstars : List.replicate n '*' = stars
    intro hidle
    have hlength := congrArg List.length hstars
    rw [List.length_replicate] at hlength
    -- A slash is no star, so that the line is empty or one star.
    have hslash : '/' ∉ stars := by simp [← hstars, List.mem_replicate]
    cases hidle with
    | empty => exact hlength.le.trans (Nat.zero_le 1)
    | bare hmark =>
        cases hmark with
        | star => exact hlength.le
        | slashes => simp at hslash
    | closed _ _ => simp [terminator] at hslash
  · intro hn
    obtain rfl | rfl := Nat.le_one_iff_eq_zero_or_eq_one.mp hn
    · exact .empty
    · exact .bare .star

/-- Three stars between delimiters have no content, and a declaration behind them is recorded with
two of them. -/
theorem exists_normalize_ne_none :
    ∃ raw, IsRawComment raw ∧ content raw = [] ∧ normalize raw ≠ none ∧
      ∃ document, Document.ofText 0 [] (raw ++ "\ntype A = 1;".toList) = .ok document ∧
        document.index.entries = [(['A'], .line ['*', '*'])] := by
  have hbody : ¬ terminator <:+: ['*', '*', '*'] := by decide
  have hread := Document.exists_ofText 0 [] "/*****/\ntype A = 1;".toList
    (fun document => document.index.entries = [(['A'], .line ['*', '*'])]) (by decide +kernel)
  refine ⟨"/*****/".toList, .block hbody, by decide, ?_, hread⟩
  exact fun hnone => absurd ((normalize_stars_eq_none_iff 3).mp hnone) (by decide)

end Comments

end DocComment

end Typings

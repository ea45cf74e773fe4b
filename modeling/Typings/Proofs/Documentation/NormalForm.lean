import Typings.Proofs.Documentation.Closing
import Mathlib.Data.List.Basic

/-!
# Documentation in normal form

Documentation that is rendered and read again comes back unchanged exactly if it is in normal
form: its lines are trimmed, hold no line feed and end with no terminator, one of them says
something, and a block has several of them.

**Lines.**  Every line of rendered documentation stands behind a star and a blank, and an empty
one behind a star alone.  Reading such a line gives back what stands there if it is trimmed and
ends with no terminator, and something else otherwise.

**Block comments.**  What is read from a block comment is in normal form, since no terminator
stands between the delimiters.
-/

namespace Typings

namespace Text

variable {t line : Text}

/-- No line feed stands in a line. -/
theorem newline_not_mem_of_mem_lines (h : line ∈ lines t) : '\n' ∉ line := by
  induction t generalizing line with
  | nil => simp_all [lines, pieces]
  | cons c rest ih =>
      rw [lines, pieces] at h
      split at h
      · rcases List.mem_cons.mp h with rfl | h
        · simp
        · exact ih h
      · rename_i hc
        split at h
        · obtain rfl : line = [c] := by simpa using h
          simpa using Ne.symm hc
        · rename_i first others hpieces
          rcases List.mem_cons.mp h with rfl | h
          · have hfirst : '\n' ∉ first := ih (by simp [lines, hpieces])
            simpa using ⟨Ne.symm hc, hfirst⟩
          · exact ih (by simp [lines, hpieces, h])

theorem isBlank_of_mem_blank : ∀ c ∈ [' '], isBlank c = true :=
  List.forall_mem_singleton.mpr (by decide)

end Text

namespace DocComment

section Reading

variable {a b text : Text}

/-- White space around a line is no part of it. -/
theorem readLine_eq_of_trim_eq (h : Text.trim a = Text.trim b) : readLine a = readLine b := by
  unfold readLine
  rw [h]

/-- Behind a star and a blank, markers are stripped off nothing but a terminator at the end. -/
theorem stripMarkers_starred_iff :
    stripMarkers ('*' :: ' ' :: Text.trimEnd text) = text ↔
      Text.trim text = text ∧ ¬ terminator <:+ text := by
  have hstrip : stripMarkers ('*' :: ' ' :: Text.trimEnd text) =
      Text.trim ((Text.beforeSuffix? terminator (' ' :: Text.trimEnd text)).getD
        (' ' :: Text.trimEnd text)) := rfl
  have hend : Text.trim text = text → Text.trimEnd text = text := by
    intro htrim
    rw [← htrim, Text.trim, Text.trimEnd_trimEnd]
  rw [hstrip]
  cases hcut : Text.beforeSuffix? terminator (' ' :: Text.trimEnd text) with
  | some front =>
      have hfront : front ++ terminator = ' ' :: Text.trimEnd text :=
        List.isSuffixOf?_eq_some_iff_append_eq.mp hcut
      obtain ⟨more, rfl⟩ : ∃ more, front = ' ' :: more := by
        cases front with
        | nil => simp [terminator] at hfront
        | cons x more => exact ⟨more, by rw [(List.cons.inj hfront).1]⟩
      have hmore : more ++ terminator = Text.trimEnd text := (List.cons.inj hfront).2
      constructor
      · -- What is left is too short.
        intro hkept
        have hshort := (isInfix_trim (' ' :: more)).length_le
        obtain ⟨blanks, htext, -⟩ := Text.exists_trimEnd_append text
        have hlong := congrArg List.length htext
        rw [Option.getD_some] at hkept
        rw [hkept] at hshort
        simp only [← hmore, List.length_append, List.length_cons, terminator] at hlong hshort
        omega
      · rintro ⟨htrim, hterminator⟩
        exact absurd ⟨more, hmore.trans (hend htrim)⟩ hterminator
  | none =>
      have hkept : Text.trim (' ' :: Text.trimEnd text) = Text.trim text := by
        rw [← Text.trim_trimEnd text, Text.trim, Text.trimStart,
          List.dropWhile_cons_of_pos (by decide), Text.trim, Text.trimStart]
      rw [Option.getD_none, hkept]
      refine ⟨fun htrim => ⟨htrim, ?_⟩, fun h => h.1⟩
      rintro ⟨front, hfront⟩
      have hsuffix : (' ' :: front) ++ terminator = ' ' :: Text.trimEnd text := by
        rw [hend htrim, List.cons_append, hfront]
      have hsome := List.isSuffixOf?_eq_some_iff_append_eq.mpr hsuffix
      rw [Text.beforeSuffix?] at hcut
      rw [hcut] at hsome
      cases hsome

/-- A line behind a star and a blank is read as it stands there if it is trimmed and ends with no
terminator, and as something else otherwise. -/
theorem readLine_starred_iff :
    readLine ('*' :: ' ' :: text) = some text ↔ Text.trim text = text ∧ ¬ terminator <:+ text := by
  have hstar : isBlank '*' = false := by decide
  have htrim : Text.trim ('*' :: ' ' :: text) = '*' :: Text.trimEnd (' ' :: text) := by
    rw [Text.trim, Text.trimStart, List.dropWhile_cons_of_neg (by simp [hstar]),
      Text.trimEnd_cons hstar]
  by_cases hblank : ∀ c ∈ text, isBlank c = true
  · -- The star stands alone, and the line is a paragraph break.
    have hend : Text.trimEnd (' ' :: text) = [] :=
      Text.trimEnd_eq_nil (List.forall_mem_cons.mpr ⟨by decide, hblank⟩)
    have hnil : Text.trim text = [] := by rw [Text.trim, Text.trimStart_eq_nil hblank, Text.trimEnd]
    rw [readLine, htrim, hend, if_pos rfl, hnil, Option.some_inj]
    constructor
    · rintro rfl
      exact ⟨rfl, by decide⟩
    · exact fun h => h.1
  · have hvisible : ∃ x ∈ text, isBlank x = false := by simpa using hblank
    have hne : text ≠ [] := by
      rintro rfl
      exact hblank (by simp)
    have hend : Text.trimEnd (' ' :: text) = ' ' :: Text.trimEnd text :=
      Text.trimEnd_append hvisible [' ']
    rw [← stripMarkers_starred_iff, readLine, htrim, hend, if_neg (by simp)]
    dsimp only
    split
    · rename_i hempty
      have hnil : stripMarkers ('*' :: ' ' :: Text.trimEnd text) = [] := by simpa using hempty
      simp [hnil, hne.symm]
    · exact Option.some_inj

/-- A line that is kept is trimmed. -/
theorem trim_of_readLine {kept : Text} (h : readLine a = some kept) : Text.trim kept = kept := by
  unfold readLine at h
  split at h
  · obtain rfl := Option.some.inj h
    rfl
  · dsimp only at h
    split at h
    · cases h
    · obtain rfl := Option.some.inj h
      exact Text.trim_trim _

end Reading

section Kept

variable {kept : List Text} {raw line : Text} {doc : DocComment}

/-- A single line, or several lines of a block. -/
def IsShaped : DocComment → Prop
  | .line _ => True
  | .block several => 2 ≤ several.length

instance : (doc : DocComment) → Decidable doc.IsShaped
  | .line _ => inferInstanceAs (Decidable True)
  | .block several => inferInstanceAs (Decidable (2 ≤ several.length))

/-- The lines that are kept of a comment. -/
def keptLines (raw : Text) : List Text :=
  (bodyLines (stripDelimiters (Text.trim raw))).filterMap readLine

theorem ofLines_eq_some_iff : ofLines kept = some doc ↔ kept = doc.lines ∧ doc.IsShaped := by
  constructor
  · intro h
    refine ⟨(lines_of_ofLines h).symm, ?_⟩
    unfold ofLines at h
    split at h
    · cases h
    · obtain rfl := Option.some.inj h
      trivial
    · rename_i hnone hone
      obtain rfl := Option.some.inj h
      match kept, hnone, hone with
      | [], hnone, _ => exact absurd rfl hnone
      | [only], _, hone => exact absurd rfl (hone only)
      | first :: second :: rest, _, _ => simp [IsShaped]
  · rintro ⟨rfl, hshape⟩
    cases doc with
    | line only => rfl
    | block several =>
        match several, hshape with
        | first :: second :: rest, _ => rfl

/-- A comment holds the documentation that its kept lines make, if one of them says something. -/
theorem normalize_eq_some_iff :
    normalize raw = some doc ↔
      keptLines raw = doc.lines ∧ (∃ line ∈ doc.lines, line ≠ []) ∧ doc.IsShaped := by
  have hnormalize : normalize raw =
      if (keptLines raw).all List.isEmpty then none else ofLines (keptLines raw) := rfl
  rw [hnormalize]
  split
  · rename_i hall
    have hempty : ∀ line ∈ keptLines raw, line = [] := by simpa using hall
    constructor
    · nofun
    · rintro ⟨hkept, ⟨line, hline, hne⟩, -⟩
      exact absurd (hempty line (hkept ▸ hline)) hne
  · rename_i hall
    rw [ofLines_eq_some_iff]
    constructor
    · rintro ⟨hkept, hshape⟩
      refine ⟨hkept, ?_, hshape⟩
      rw [← hkept]
      simpa using hall
    · rintro ⟨hkept, -, hshape⟩
      exact ⟨hkept, hshape⟩

theorem trim_of_mem_keptLines (h : line ∈ keptLines raw) : Text.trim line = line := by
  obtain ⟨content, -, hread⟩ := List.mem_filterMap.mp h
  exact trim_of_readLine hread

theorem newline_not_mem_of_mem_keptLines (h : line ∈ keptLines raw) : '\n' ∉ line := by
  obtain ⟨content, hcontent, hread⟩ := List.mem_filterMap.mp h
  have hlines : content ∈ Text.lines (stripDelimiters (Text.trim raw)) := by
    unfold bodyLines at hcontent
    split at hcontent
    · cases hcontent
    · rename_i first others hlines
      rw [hlines]
      split at hcontent
      · exact List.mem_cons_of_mem _ hcontent
      · exact hcontent
  intro hmem
  exact Text.newline_not_mem_of_mem_lines hlines ((isInfix_of_readLine hread).subset hmem)

end Kept

section Rendered

variable {indent first last : Text} {several : List Text}

/-- What stands on the line of a content in the margin. -/
def margined (indent content : Text) : Text :=
  indent ++ if content.isEmpty then " *".toList else " * ".toList ++ content

theorem newline_not_mem_indent (h : ∀ c ∈ indent, Text.isIndent c = true) : '\n' ∉ indent := by
  intro hmem
  have hbreak := h '\n' hmem
  simp [Text.isIndent] at hbreak

/-- Each content in the margin stands on a line of its own. -/
theorem lines_append_margins (hindent : '\n' ∉ indent) (hlines : ∀ line ∈ several, '\n' ∉ line)
    (hfirst : '\n' ∉ first) (hlast : '\n' ∉ last) :
    Text.lines (first ++ several.flatMap (marginLine indent) ++ '\n' :: last) =
      first :: several.map (margined indent) ++ [last] := by
  induction several generalizing first with
  | nil => simp [Text.lines_append_newline hfirst, Text.lines_of_not_mem hlast]
  | cons content rest ih =>
      obtain ⟨hcontent, hrest⟩ := List.forall_mem_cons.mp hlines
      have hmargined : '\n' ∉ margined indent content := by
        unfold margined
        split <;> simp [hindent, hcontent]
      calc Text.lines (first ++ (content :: rest).flatMap (marginLine indent) ++ '\n' :: last)
          = Text.lines (first ++ '\n' ::
              (margined indent content ++ rest.flatMap (marginLine indent) ++ '\n' :: last)) := by
            simp [marginLine, margined]
        _ = first :: (margined indent content :: rest.map (margined indent) ++ [last]) := by
            rw [Text.lines_append_newline hfirst, ih hrest hmargined]
        _ = _ := rfl

/-- A line in the margin is read as its content if that is trimmed and ends with no terminator,
and as something else otherwise. -/
theorem readLine_margined_iff (hindent : ∀ c ∈ indent, isBlank c = true) (content : Text) :
    readLine (margined indent content) = some content ↔
      Text.trim content = content ∧ ¬ terminator <:+ content := by
  have hmargin : ∀ c ∈ indent ++ [' '], isBlank c = true :=
    List.forall_mem_append.mpr ⟨hindent, Text.isBlank_of_mem_blank⟩
  have htrim : Text.trim (margined indent content) = Text.trim ('*' :: ' ' :: content) := by
    cases content with
    | nil =>
        have hstar : Text.trim ['*', ' '] = Text.trim ['*'] := by decide
        have hfront := Text.trim_blanks (indent ++ [' ']) ['*'] [] hmargin (by simp)
        simpa [margined, hstar] using hfront
    | cons x rest =>
        have hfront := Text.trim_blanks (indent ++ [' ']) ('*' :: ' ' :: x :: rest) [] hmargin
          (by simp)
        simpa [margined] using hfront
  rw [readLine_eq_of_trim_eq htrim, readLine_starred_iff]

/-- The lines that are kept of a rendered block are read in the margin. -/
theorem keptLines_render_block (hindent : ∀ c ∈ indent, Text.isIndent c = true)
    (hlines : ∀ line ∈ several, '\n' ∉ line) :
    keptLines ((block several).render indent) =
      several.filterMap fun content => readLine (margined indent content) := by
  have hbreak := newline_not_mem_indent hindent
  have hlast : readLine (indent ++ [' ']) = none := by
    have hblank : Text.trim (indent ++ [' ']) = Text.trim [] := by
      have hends := Text.trim_blanks indent [] [' ']
        (fun c hc => Text.isBlank_of_isIndent (hindent c hc)) Text.isBlank_of_mem_blank
      simpa using hends
    rw [readLine_eq_of_trim_eq hblank]
    decide
  have hbody :
      bodyLines (['*'] ++ several.flatMap (marginLine indent) ++ '\n' :: (indent ++ [' '])) =
        several.map (margined indent) ++ [indent ++ [' ']] := by
    rw [bodyLines, lines_append_margins hbreak hlines (by decide) (by simpa using hbreak)]
    exact if_pos (by decide)
  have hrender : (block several).render indent = '/' :: '*' ::
      (['*'] ++ several.flatMap (marginLine indent) ++ '\n' :: (indent ++ [' ']) ++
        terminator) := by
    simp [render_block, terminator]
  rw [keptLines, hrender, stripDelimiters_block, hbody, List.filterMap_append, List.filterMap_map,
    List.filterMap_cons_none hlast, List.filterMap_nil, List.append_nil]
  rfl

/-- The line that is kept of rendered documentation of one line is read behind a star. -/
theorem keptLines_render_line {only : Text} (hline : '\n' ∉ only) (hne : only ≠ []) :
    keptLines ((line only).render indent) = [only] ↔
      readLine ('*' :: ' ' :: only) = some only := by
  have htrim : Text.trim ('*' :: ' ' :: (only ++ [' '])) = Text.trim ('*' :: ' ' :: only) := by
    simpa using
      Text.trim_blanks [] ('*' :: ' ' :: only) [' '] (by simp) Text.isBlank_of_mem_blank
  have hrender : (line only).render indent =
      '/' :: '*' :: ('*' :: ' ' :: (only ++ [' ']) ++ terminator) := by
    simp [render_line, terminator]
  rw [keptLines, hrender, stripDelimiters_block, bodyLines,
    Text.lines_of_not_mem (by simpa using hline), ← readLine_eq_of_trim_eq htrim]
  dsimp only
  split
  · -- A star that stands alone is no line, and it is read as an empty one.
    rename_i hstar
    have hread : readLine ('*' :: ' ' :: (only ++ [' '])) = some [] :=
      if_pos (by simpa [isOpeningStar] using hstar)
    simp [hread, hne.symm]
  · cases hread : readLine ('*' :: ' ' :: (only ++ [' '])) <;> simp [hread]

/-- Rendered documentation keeps its lines exactly if they are trimmed and end with no
terminator. -/
theorem keptLines_render_iff {doc : DocComment} (hindent : ∀ c ∈ indent, Text.isIndent c = true)
    (hlines : ∀ line ∈ doc.lines, '\n' ∉ line) (htelling : ∃ line ∈ doc.lines, line ≠ []) :
    keptLines (doc.render indent) = doc.lines ↔
      ∀ line ∈ doc.lines, Text.trim line = line ∧ ¬ terminator <:+ line := by
  cases doc with
  | line only =>
      have honly : '\n' ∉ only := hlines only (by simp [lines])
      have hne : only ≠ [] := by simpa [lines] using htelling
      rw [lines, keptLines_render_line honly hne, readLine_starred_iff]
      simp
  | block several =>
      have hkept : keptLines ((block several).render indent) =
          several.filterMap fun content => readLine (margined indent content) :=
        keptLines_render_block hindent hlines
      have hread := readLine_margined_iff fun c hc => Text.isBlank_of_isIndent (hindent c hc)
      have hself : several.filterMap (fun content => readLine (margined indent content)) = several ↔
          ∀ line ∈ several, readLine (margined indent line) = some line := by
        simpa using List.filterMap_eq_map_iff_forall_eq_some (g := id) (l := several)
      rw [hkept, lines, hself]
      exact forall₂_congr fun line _ => hread line

end Rendered

section NormalForm

/-- Documentation that comes back unchanged when it is rendered and read again. -/
structure IsNormal (doc : DocComment) : Prop where
  trimmed : ∀ line ∈ doc.lines, Text.trim line = line
  unbroken : ∀ line ∈ doc.lines, '\n' ∉ line
  unended : ∀ line ∈ doc.lines, ¬ terminator <:+ line
  telling : ∃ line ∈ doc.lines, line ≠ []
  shaped : doc.IsShaped

theorem isNormal_iff {doc : DocComment} :
    doc.IsNormal ↔
      (∀ line ∈ doc.lines, Text.trim line = line ∧ '\n' ∉ line ∧ ¬ terminator <:+ line) ∧
        (∃ line ∈ doc.lines, line ≠ []) ∧ doc.IsShaped := by
  constructor
  · rintro ⟨htrimmed, hunbroken, hunended, htelling, hshaped⟩
    exact ⟨fun line h => ⟨htrimmed line h, hunbroken line h, hunended line h⟩, htelling, hshaped⟩
  · rintro ⟨hlines, htelling, hshaped⟩
    exact ⟨fun line h => (hlines line h).1, fun line h => (hlines line h).2.1,
      fun line h => (hlines line h).2.2, htelling, hshaped⟩

instance (doc : DocComment) : Decidable doc.IsNormal :=
  decidable_of_iff' _ isNormal_iff

/-- Lines may begin with markers, and a paragraph break may come anywhere. -/
example : (block [[], ['*'], "// * a".toList, []]).IsNormal := by decide

variable {indent body : Text} {doc : DocComment}

/-- Rendered documentation keeps its lines and its shape exactly if it is in normal form. -/
theorem normalize_render_iff (hindent : ∀ c ∈ indent, Text.isIndent c = true) :
    normalize (doc.render indent) = some doc ↔ doc.IsNormal := by
  rw [normalize_eq_some_iff]
  constructor
  · rintro ⟨hkept, htelling, hshape⟩
    have hlines : ∀ line ∈ doc.lines, '\n' ∉ line := fun line hline =>
      newline_not_mem_of_mem_keptLines (hkept ▸ hline)
    have hread := (keptLines_render_iff hindent hlines htelling).mp hkept
    exact ⟨fun line hline => (hread line hline).1, hlines, fun line hline => (hread line hline).2,
      htelling, hshape⟩
  · intro h
    refine ⟨(keptLines_render_iff hindent h.unbroken h.telling).mpr ?_, h.telling, h.shaped⟩
    exact fun line hline => ⟨h.trimmed line hline, h.unended line hline⟩

/-- What a block comment holds is in normal form. -/
theorem isNormal_of_normalize_block (hbody : ¬ terminator <:+: body)
    (h : normalize ('/' :: '*' :: (body ++ terminator)) = some doc) : doc.IsNormal := by
  obtain ⟨hkept, htelling, hshape⟩ := normalize_eq_some_iff.mp h
  refine ⟨?_, ?_, ?_, htelling, hshape⟩
  · exact fun line hline => trim_of_mem_keptLines (hkept ▸ hline)
  · exact fun line hline => newline_not_mem_of_mem_keptLines (hkept ▸ hline)
  · intro line hline hterminator
    have hstretch := infix_of_mem_lines_of_normalize h hline
    rw [stripDelimiters_block] at hstretch
    exact hbody (hterminator.isInfix.trans hstretch)

/-- **Rendering and reading are inverse on normal forms and on nothing else.**  What is read from
a block comment is in normal form, so that it stays as it is from then on. -/
theorem normalize_render_eq_some_iff (hindent : ∀ c ∈ indent, Text.isIndent c = true) :
    (∀ doc : DocComment, normalize (doc.render indent) = some doc ↔ doc.IsNormal) ∧
      ∀ (body : Text) (doc : DocComment), ¬ terminator <:+: body →
        normalize ('/' :: '*' :: (body ++ terminator)) = some doc →
          doc.IsNormal ∧ normalize (doc.render indent) = some doc := by
  refine ⟨fun doc => normalize_render_iff hindent, fun body doc hbody hdoc => ?_⟩
  have hnormal := isNormal_of_normalize_block hbody hdoc
  exact ⟨hnormal, (normalize_render_iff hindent).mpr hnormal⟩

/-- A block comment with a paragraph break and a line of markers, and a line that ends with a
terminator. -/
theorem normalize_render_eq_some_iff_paragraphs :
    (∀ c ∈ [' ', '\t'], Text.isIndent c = true) ∧
      ¬ terminator <:+: "*\n * a\n *\n * // *\n ".toList ∧
      normalize "/**\n * a\n *\n * // *\n */".toList = some (block [['a'], [], "// *".toList]) ∧
      (block [['a'], [], "// *".toList]).IsNormal ∧
      normalize ((block [['a'], [], "// *".toList]).render [' ', '\t']) =
        some (block [['a'], [], "// *".toList]) ∧
      normalize ((line "a */".toList).render [' ', '\t']) ≠ some (line "a */".toList) := by
  have hindent : ∀ c ∈ [' ', '\t'], Text.isIndent c = true := by simp [Text.isIndent]
  have hbody : ¬ terminator <:+: "*\n * a\n *\n * // *\n ".toList := by decide
  have hread : normalize "/**\n * a\n *\n * // *\n */".toList =
      some (block [['a'], [], "// *".toList]) := by decide
  obtain ⟨hiff, hblock⟩ := normalize_render_eq_some_iff hindent
  obtain ⟨hnormal, hagain⟩ := hblock _ _ hbody hread
  exact ⟨hindent, hbody, hread, hnormal, hagain, fun h => absurd ((hiff _).mp h) (by decide)⟩

end NormalForm

end DocComment

end Typings

import Typings.Proofs.Documentation.NormalForm
import Mathlib.Data.List.Forall2

/-!
# What documentation keeps of a comment

White space, stars and slashes are the marking of a comment.  Everything else is its content.
Reading the documentation out of a comment takes marking away, at the ends of the comment and at
the ends of its lines, and nothing else.

**Content.**  The lines of documentation have the content of the comment, in the same order.  Each
of them stands in one line of the comment, and different ones in different lines.

**Marking.**  A comment without content can still be read as documentation, since one marker is
taken off a line and no more.  It documents nothing exactly if each of its lines is a marker by
itself.
-/

namespace Typings

namespace Text

variable {t : Text} {x : Char}

/-- A trimmed text has no white space behind its last visible part. -/
theorem eq_nil_of_trim_append {front : Text} (htrim : trim (front ++ t) = front ++ t)
    (hblank : ∀ c ∈ t, isBlank c = true) : t = [] := by
  have hcut : trim (front ++ t) = trim front := by
    simpa using trim_blanks [] front t (by simp) hblank
  have hlength := congrArg List.length (hcut.symm.trans htrim)
  have hshort := (DocComment.isInfix_trim front).length_le
  rw [List.length_append] at hlength
  exact List.eq_nil_of_length_eq_zero (by omega)

theorem lines_newline_cons (t : Text) : lines ('\n' :: t) = [] :: lines t := by
  rw [lines, pieces, if_pos rfl, lines]

/-- A character that ends no line comes to the front of the first line. -/
theorem exists_lines_cons (hx : x ≠ '\n') (t : Text) :
    ∃ first others, lines t = first :: others ∧ lines (x :: t) = (x :: first) :: others := by
  obtain ⟨first, others, hlines⟩ := List.exists_cons_of_ne_nil (lines_ne_nil t)
  refine ⟨first, others, hlines, ?_⟩
  rw [lines] at hlines
  rw [lines, pieces, if_neg hx, hlines]

end Text

namespace DocComment

section Content

/-- White space, and the characters that the markers of a comment are made of. -/
def isMarking (c : Char) : Bool :=
  isBlank c || c == '*' || c == '/'

/-- The characters of a text that are not marking, in order. -/
def content (t : Text) : Text :=
  t.filter fun c => !isMarking c

variable {a b t : Text} {c : Char}

@[simp] theorem content_nil : content [] = [] := rfl

@[simp] theorem content_append (a b : Text) : content (a ++ b) = content a ++ content b :=
  List.filter_append ..

theorem content_eq_nil_iff : content t = [] ↔ ∀ c ∈ t, isMarking c = true := by
  simp [content, List.filter_eq_nil_iff]

theorem isMarking_of_isBlank (h : isBlank c = true) : isMarking c = true := by
  simp [isMarking, h]

theorem content_joinLines (ls : List Text) : content (Text.joinLines ls) = ls.flatMap content := by
  have hbreak : content ['\n'] = [] := by decide
  induction ls with
  | nil => rfl
  | cons line rest ih =>
      cases rest with
      | nil => simp [Text.joinLines, Text.joinWith]
      | cons next others =>
          rw [Text.joinLines] at ih ⊢
          rw [Text.joinWith, content_append, content_append, hbreak, ih]
          rfl

/-- The lines of a text have its content. -/
theorem flatMap_content_lines (t : Text) : (Text.lines t).flatMap content = content t := by
  rw [← content_joinLines, Text.joinLines_lines]

theorem content_flatten (ls : List Text) : content ls.flatten = ls.flatMap content := by
  induction ls with
  | nil => rfl
  | cons line rest ih => rw [List.flatten_cons, content_append, ih, List.flatMap_cons]

end Content

section Dressing

/-- The second text is the first one with marking around it. -/
def Dresses (t dressed : Text) : Prop :=
  ∃ front back, dressed = front ++ t ++ back ∧ content front = [] ∧ content back = []

variable {a b c t : Text}

theorem Dresses.refl (t : Text) : Dresses t t :=
  ⟨[], [], by simp, rfl, rfl⟩

theorem Dresses.trans (h : Dresses a b) (h' : Dresses b c) : Dresses a c := by
  obtain ⟨front, back, rfl, hfront, hback⟩ := h
  obtain ⟨more, others, rfl, hmore, hothers⟩ := h'
  exact ⟨more ++ front, back ++ others, by simp, by simp [hmore, hfront], by simp [hback, hothers]⟩

instance : Std.Refl Dresses :=
  ⟨Dresses.refl⟩

instance : IsTrans Text Dresses :=
  ⟨fun _ _ _ => Dresses.trans⟩

theorem Dresses.content_eq (h : Dresses a b) : content b = content a := by
  obtain ⟨front, back, rfl, hfront, hback⟩ := h
  simp [hfront, hback]

theorem Dresses.isInfix (h : Dresses a b) : a <:+: b := by
  obtain ⟨front, back, rfl, -, -⟩ := h
  exact ⟨front, back, rfl⟩

/-- Nothing is left of marking. -/
theorem dresses_nil (h : content t = []) : Dresses [] t :=
  ⟨t, [], by simp, h, rfl⟩

theorem dresses_trim (t : Text) : Dresses (Text.trim t) t := by
  obtain ⟨front, back, ht, hfront, hback⟩ := Text.exists_append_trim_append t
  refine ⟨front, back, ht, ?_, ?_⟩
  · exact content_eq_nil_iff.mpr fun c hc => isMarking_of_isBlank (hfront c hc)
  · exact content_eq_nil_iff.mpr fun c hc => isMarking_of_isBlank (hback c hc)

theorem dresses_afterPrefix? {affix rest : Text} (haffix : content affix = [])
    (h : Text.afterPrefix? affix t = some rest) : Dresses rest t := by
  have ht : affix ++ rest = t := List.isPrefixOf?_eq_some_iff_append_eq.mp h
  exact ⟨affix, [], by simp [ht], haffix, rfl⟩

theorem dresses_afterPrefix?_getD {affix : Text} (haffix : content affix = []) (t : Text) :
    Dresses ((Text.afterPrefix? affix t).getD t) t := by
  cases hrest : Text.afterPrefix? affix t with
  | none => exact .refl t
  | some rest => exact dresses_afterPrefix? haffix hrest

theorem dresses_beforeSuffix?_getD (t : Text) :
    Dresses ((Text.beforeSuffix? terminator t).getD t) t := by
  cases hcut : Text.beforeSuffix? terminator t with
  | none => exact .refl t
  | some front =>
      have ht : front ++ terminator = t := List.isSuffixOf?_eq_some_iff_append_eq.mp hcut
      exact ⟨[], terminator, by simp [ht], rfl, by decide⟩

/-- Delimiters are marking. -/
theorem dresses_stripDelimiters (t : Text) : Dresses (stripDelimiters t) t := by
  unfold stripDelimiters
  split
  · rename_i rest hrest
    exact (dresses_beforeSuffix?_getD rest).trans (dresses_afterPrefix? (by decide) hrest)
  · exact dresses_afterPrefix?_getD (by decide) t

theorem dresses_stripLeadingMarker (t : Text) : Dresses (stripLeadingMarker t) t := by
  unfold stripLeadingMarker
  split
  · rename_i rest hrest
    exact dresses_afterPrefix? (by decide) hrest
  · exact dresses_afterPrefix?_getD (by decide) t

theorem dresses_stripMarkers (t : Text) : Dresses (stripMarkers t) t :=
  (dresses_trim _).trans
    ((dresses_beforeSuffix?_getD _).trans (dresses_stripLeadingMarker t))

end Dressing

section Lines

variable {a b t front back : Text} {x : Char}

theorem content_cons_eq_nil_iff :
    content (x :: t) = [] ↔ content [x] = [] ∧ content t = [] := by
  rw [← List.singleton_append, content_append, List.append_eq_nil_iff]

/-- Marking in front of a text stands in front of its lines, or makes lines of its own. -/
theorem sublistForall₂_lines_append_left (hfront : content front = []) (t : Text) :
    List.SublistForall₂ Dresses (Text.lines t) (Text.lines (front ++ t)) := by
  induction front with
  | nil => exact refl _
  | cons x rest ih =>
      obtain ⟨hx, hrest⟩ := content_cons_eq_nil_iff.mp hfront
      have ih := ih hrest
      by_cases hbreak : x = '\n'
      · rw [hbreak, List.cons_append, Text.lines_newline_cons]
        exact .cons_right ih
      · obtain ⟨first, others, hlines, hcons⟩ := Text.exists_lines_cons hbreak (rest ++ t)
        rw [hlines] at ih
        rw [List.cons_append, hcons]
        have hstep : List.SublistForall₂ Dresses (first :: others) ((x :: first) :: others) :=
          .cons ⟨[x], [], by simp, hx, rfl⟩ (refl _)
        exact IsTrans.trans _ _ _ ih hstep

/-- Marking behind a text stands behind its last line, and makes other lines after it. -/
theorem exists_lines_append_right (hback : content back = []) (t : Text) :
    ∃ ends others, Text.lines (t ++ back) = ends ++ others ∧
      List.Forall₂ (fun line longer => ∃ more, longer = line ++ more ∧ content more = [])
        (Text.lines t) ends := by
  induction t with
  | nil =>
      obtain ⟨first, others, hlines, hfirst, -⟩ := exists_pieces_eq '\n' back
      have hmarking : content first = [] := by
        rw [content_eq_nil_iff] at hback ⊢
        exact fun x hx => hback x (hfirst.subset hx)
      exact ⟨[first], others, hlines, .cons ⟨first, rfl, hmarking⟩ .nil⟩
  | cons x rest ih =>
      obtain ⟨ends, others, hlines, hends⟩ := ih
      by_cases hbreak : x = '\n'
      · rw [hbreak, List.cons_append, Text.lines_newline_cons, Text.lines_newline_cons, hlines]
        exact ⟨[] :: ends, others, rfl, .cons ⟨[], rfl, rfl⟩ hends⟩
      · obtain ⟨first, more, hrest, hcons⟩ := Text.exists_lines_cons hbreak rest
        obtain ⟨first', more', hrest', hcons'⟩ := Text.exists_lines_cons hbreak (rest ++ back)
        rw [hrest] at hends
        rw [List.cons_append, hcons, hcons']
        -- The first of the longer lines is that of the rest, with the character in front of it.
        cases hends with
        | @cons _ longer _ longers hfirst hmore =>
            obtain ⟨tail, rfl, htail⟩ := hfirst
            obtain ⟨rfl, rfl⟩ := List.cons.inj (hrest'.symm.trans hlines)
            exact ⟨(x :: (first ++ tail)) :: longers, others, rfl, .cons ⟨tail, rfl, htail⟩ hmore⟩

/-- The lines of a text stand in lines of the text with marking around it. -/
theorem sublistForall₂_lines (h : Dresses a b) :
    List.SublistForall₂ Dresses (Text.lines a) (Text.lines b) := by
  obtain ⟨front, back, rfl, hfront, hback⟩ := h
  obtain ⟨ends, others, hlines, hends⟩ := exists_lines_append_right hback a
  have hdressed : List.Forall₂ Dresses (Text.lines a) ends := by
    refine hends.imp ?_
    rintro line longer ⟨more, rfl, hmore⟩
    exact ⟨[], more, rfl, rfl, hmore⟩
  have hleft : List.SublistForall₂ Dresses (Text.lines a) (Text.lines (a ++ back)) :=
    List.sublistForall₂_iff.mpr ⟨ends, hdressed, hlines ▸ List.sublist_append_left ends others⟩
  rw [List.append_assoc]
  exact IsTrans.trans _ _ _ hleft (sublistForall₂_lines_append_left hfront _)

end Lines

section Kept

variable {line kept raw : Text}

/-- What is kept of a line is the line without marking. -/
theorem dresses_of_readLine (h : readLine line = some kept) : Dresses kept line := by
  unfold readLine at h
  split at h
  · rename_i hstar
    obtain rfl := Option.some.inj h
    have hcontent := (dresses_trim line).content_eq
    rw [hstar] at hcontent
    exact dresses_nil (hcontent.trans (by decide))
  · dsimp only at h
    split at h
    · cases h
    · obtain rfl := Option.some.inj h
      exact (dresses_stripMarkers _).trans (dresses_trim line)

/-- A line that is left out is marking. -/
theorem content_of_readLine_eq_none (h : readLine line = none) : content line = [] := by
  unfold readLine at h
  split at h
  · cases h
  · dsimp only at h
    split at h
    · rename_i hempty
      have hnil : stripMarkers (Text.trim line) = [] := by simpa using hempty
      have hdressed := (dresses_stripMarkers (Text.trim line)).trans (dresses_trim line)
      rw [hdressed.content_eq, hnil, content_nil]
    · cases h

/-- The lines that are read have the content of all. -/
theorem flatMap_content_filterMap_readLine (ls : List Text) :
    (ls.filterMap readLine).flatMap content = ls.flatMap content := by
  induction ls with
  | nil => rfl
  | cons line rest ih =>
      rw [List.flatMap_cons, List.filterMap_cons]
      split
      · rename_i hnone
        rw [content_of_readLine_eq_none hnone, ih, List.nil_append]
      · rename_i kept hkept
        rw [List.flatMap_cons, ih, (dresses_of_readLine hkept).content_eq]

theorem sublistForall₂_filterMap_readLine (ls : List Text) :
    List.SublistForall₂ Dresses (ls.filterMap readLine) ls := by
  induction ls with
  | nil => exact .nil
  | cons line rest ih =>
      rw [List.filterMap_cons]
      split
      · exact .cons_right ih
      · rename_i kept hkept
        exact .cons (dresses_of_readLine hkept) ih

/-- The star of the opening is marking. -/
theorem bodyLines_eq (body : Text) :
    ∃ opening, Text.lines body = opening ++ bodyLines body ∧ opening.flatMap content = [] := by
  unfold bodyLines
  split
  · rename_i hnil
    exact absurd hnil (Text.lines_ne_nil body)
  · rename_i first others hlines
    split
    · rename_i hstar
      have htrim : Text.trim first = ['*'] := by simpa [isOpeningStar] using hstar
      have hcontent := (dresses_trim first).content_eq
      rw [htrim] at hcontent
      exact ⟨[first], hlines, by simpa using hcontent.trans (by decide)⟩
    · exact ⟨[], hlines, rfl⟩

theorem dresses_body (raw : Text) : Dresses (stripDelimiters (Text.trim raw)) raw :=
  (dresses_stripDelimiters _).trans (dresses_trim raw)

/-- The lines that are kept of a comment have its content. -/
theorem flatMap_content_keptLines (raw : Text) : (keptLines raw).flatMap content = content raw := by
  obtain ⟨opening, hlines, hopening⟩ := bodyLines_eq (stripDelimiters (Text.trim raw))
  have hbody := flatMap_content_lines (stripDelimiters (Text.trim raw))
  rw [hlines, List.flatMap_append, hopening, List.nil_append] at hbody
  rw [keptLines, flatMap_content_filterMap_readLine, hbody, (dresses_body raw).content_eq]

/-- The lines that are kept of a comment stand in lines of the comment. -/
theorem sublistForall₂_keptLines (raw : Text) :
    List.SublistForall₂ Dresses (keptLines raw) (Text.lines raw) := by
  obtain ⟨opening, hlines, -⟩ := bodyLines_eq (stripDelimiters (Text.trim raw))
  have hbody : List.SublistForall₂ Dresses (bodyLines (stripDelimiters (Text.trim raw)))
      (Text.lines (stripDelimiters (Text.trim raw))) :=
    List.sublistForall₂_iff.mpr
      ⟨_, List.forall₂_refl _, hlines ▸ List.sublist_append_right opening _⟩
  have hkept := sublistForall₂_filterMap_readLine (bodyLines (stripDelimiters (Text.trim raw)))
  exact IsTrans.trans _ _ _ hkept
    (IsTrans.trans _ _ _ hbody (sublistForall₂_lines (dresses_body raw)))

/-- A line of documentation, taken from one line of a comment. -/
structure TakenFrom (kept line : Text) : Prop where
  isInfix : kept <:+: line
  trimmed : Text.trim kept = kept
  unbroken : '\n' ∉ kept
  content_eq : content kept = content line

/-- The lines of the documentation that a comment holds; none if it documents nothing. -/
def docLines (raw : Text) : List Text :=
  (normalize raw).elim [] lines

theorem docLines_of_eq_none (h : normalize raw = none) : docLines raw = [] := by
  rw [docLines, h, Option.elim_none]

theorem docLines_of_eq_some {doc : DocComment} (h : normalize raw = some doc) :
    docLines raw = keptLines raw := by
  rw [docLines, h, Option.elim_some, (normalize_eq_some_iff.mp h).1]

/-- A comment documents nothing if every line that is kept of it is empty. -/
theorem normalize_eq_none_iff_keptLines :
    normalize raw = none ↔ ∀ line ∈ keptLines raw, line = [] := by
  constructor
  · intro hnone
    by_contra htelling
    push Not at htelling
    obtain ⟨doc, hdoc⟩ : ∃ doc, ofLines (keptLines raw) = some doc := by
      cases hkept : keptLines raw with
      | nil => simp [hkept] at htelling
      | cons first rest => cases rest <;> exact ⟨_, rfl⟩
    obtain ⟨hlines, hshape⟩ := ofLines_eq_some_iff.mp hdoc
    have hsome := normalize_eq_some_iff.mpr ⟨hlines, hlines ▸ htelling, hshape⟩
    rw [hnone] at hsome
    cases hsome
  · intro hempty
    cases hdoc : normalize raw with
    | none => rfl
    | some doc =>
        obtain ⟨hlines, ⟨line, hmem, hne⟩, -⟩ := normalize_eq_some_iff.mp hdoc
        exact absurd (hempty line (hlines ▸ hmem)) hne

/-- **What is kept of a comment.**  The lines of its documentation have its content, in order.
They are trimmed, and taken from different lines of the comment, in order. -/
theorem content_docLines (raw : Text) :
    content (docLines raw).flatten = content raw ∧
      ∃ picked, picked.Sublist (Text.lines raw) ∧ List.Forall₂ TakenFrom (docLines raw) picked := by
  rw [content_flatten]
  cases hdoc : normalize raw with
  | none =>
      have hempty := normalize_eq_none_iff_keptLines.mp hdoc
      rw [docLines_of_eq_none hdoc, ← flatMap_content_keptLines]
      refine ⟨?_, [], List.nil_sublist _, .nil⟩
      rw [List.flatMap_nil, eq_comm, List.flatMap_eq_nil_iff]
      intro line hline
      rw [hempty line hline, content_nil]
  | some doc =>
      rw [docLines_of_eq_some hdoc]
      obtain ⟨picked, hdressed, hpicked⟩ :=
        List.sublistForall₂_iff.mp (sublistForall₂_keptLines raw)
      have hkept : ∀ line ∈ keptLines raw, Text.trim line = line ∧ '\n' ∉ line := fun line hline =>
        ⟨trim_of_mem_keptLines hline, newline_not_mem_of_mem_keptLines hline⟩
      refine ⟨flatMap_content_keptLines raw, picked, hpicked, ?_⟩
      refine ((List.forall₂_and_left _ _).mpr ⟨hkept, hdressed⟩).imp ?_
      rintro kept line ⟨⟨htrim, hbreak⟩, hdresses⟩
      exact ⟨hdresses.isInfix, htrim, hbreak, hdresses.content_eq.symm⟩

end Kept

end DocComment

end Typings

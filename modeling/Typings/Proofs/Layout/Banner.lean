import Typings.Configuration
import Typings.Layout.Document
import Typings.Proofs.Reading.BlockComments
import Typings.Proofs.Reading.Front
import Typings.Proofs.Layout.Copy
import Typings.Proofs.Text.LineEnds
import Typings.Proofs.Text.Trimming

/-!
# The banner is no part of the document

A printed text is its rendering behind one line comment, if the name in the banner ends no line.
Reading it gives the statements of the rendering, at every depth, each with the same kind, name
and text.

**Line ends.**  The name in a banner that is accepted has no line feed.  A carriage return, a line
separator or a paragraph separator in it ends the comment just as well, and what comes behind that
is read as code.

**Parameters.**  The text of a parameter begins with the block comments in front of it.  The
search for these goes back through the comments, and never reaches the line comment of the banner.
-/

namespace Typings

open Syntax

namespace Text

variable {front t : Text}

theorem slice_append_left (front t : Text) (a b : Nat) :
    slice (front ++ t) (a + front.length) (b + front.length) = slice t a b := by
  have hlength : b + front.length - (a + front.length) = b - a := by omega
  rw [slice, slice, hlength, Nat.add_comm, ← List.drop_drop, List.drop_left]

/-- Without carriage returns before it, a line feed is kept as it is. -/
theorem unixLines_append_newline (h : '\r' ∉ front) (t : Text) :
    unixLines (front ++ '\n' :: t) = front ++ '\n' :: unixLines t := by
  induction front with
  | nil => rfl
  | cons x front ih =>
      obtain ⟨hx, hfront⟩ := not_or.mp (fun hmem => h (List.mem_cons.mpr hmem))
      have hx : ¬ x = '\r' := fun heq => hx heq.symm
      rw [List.cons_append, unixLines, ih hfront, List.cons_append]
      exact fun rest heq => absurd heq hx

theorem unixLines_behindLine {line : Text} (h : ∀ x ∈ line, isLineBreak x = false) :
    unixLines (behindLine line t) = behindLine line (unixLines t) := by
  have hline : '\r' ∉ '/' :: '/' :: line := by
    intro hmem
    have hmem : '\r' ∈ line := by simpa using hmem
    exact absurd (h _ hmem) (by decide)
  have hfront : behindLine line t = ('/' :: '/' :: line) ++ '\n' :: ('\n' :: t) := rfl
  rw [hfront, unixLines_append_newline hline, unixLines]
  · rfl
  · nofun

/-- No other text begins with the mark of an interpreter once its line ends are changed. -/
theorem shebang_of_unixLines (h : "#!".toList <+: unixLines t) : "#!".toList <+: t := by
  obtain ⟨rest, hrest⟩ := h
  have hkeeps : ∀ {x : Char} {t rest : Text}, x ≠ '\n' → unixLines t = x :: rest →
      ∃ more, t = x :: more ∧ rest = unixLines more := by
    intro x t rest hx heq
    unfold unixLines at heq
    split at heq
    · cases heq
    · exact absurd (List.cons.inj heq).1.symm hx
    · obtain ⟨rfl, rfl⟩ := List.cons.inj heq
      exact ⟨_, rfl, rfl⟩
  obtain ⟨more, rfl, hmore⟩ := hkeeps (by decide) hrest.symm
  obtain ⟨others, rfl, -⟩ := hkeeps (by decide) hmore.symm
  exact ⟨others, rfl⟩

end Text

namespace Node

mutual

/-- The node with its text in place of where it stands, at itself and at all below it. -/
def detached : Node → Node
  | ⟨kind, name, parent, exported, doc, children, origin⟩ =>
      ⟨kind, name, parent, exported, doc, detachedAll children,
        .made (Node.text ⟨kind, name, parent, exported, doc, children, origin⟩)⟩

/-- Nodes with their texts in place of where they stand. -/
def detachedAll : List Node → List Node
  | [] => []
  | node :: rest => detached node :: detachedAll rest

end

end Node

namespace ReadText

/-- The second text is the first one behind `n` characters, which hold one line comment. -/
structure Behind (n : Nat) (lead : Comment) (r r' : ReadText) : Prop where
  chars : ∃ front, front.length = n ∧ r'.chars = front ++ r.chars
  outline : r'.outline = Outline.movedAll n r.outline
  comments : r'.comments.toList = lead :: r.comments.toList.map (Comment.moved n)
  line : lead.isBlock = false

variable {n : Nat} {lead : Comment} {r r' : ReadText} {z z' : Cursor}

namespace Behind

theorem textOf_moved (h : Behind n lead r r') (span : Span) :
    r'.textOf (span.moved n) = r.textOf span := by
  obtain ⟨front, rfl, hchars⟩ := h.chars
  rw [textOf, hchars]
  exact Text.slice_append_left front r.chars span.start span.stop

end Behind

section BlockComments

/-- What is visible before a position ends behind the text in front, or nothing is visible. -/
theorem Behind.visibleStop_add (h : Behind n lead r r') (start : Nat) :
    r'.visibleStop (start + n) = r.visibleStop start + n ∨
      r.visibleStop start = 0 ∧ r'.visibleStop (start + n) ≤ n := by
  obtain ⟨front, rfl, hchars⟩ := h.chars
  have hbefore : (if r'.chars.length < start + front.length then []
      else r'.chars.take (start + front.length)) =
      if r.chars.length < start then [] else front ++ r.chars.take start := by
    have hlength : r'.chars.length = front.length + r.chars.length := by
      rw [hchars, List.length_append]
    by_cases hlt : r.chars.length < start
    · rw [if_pos hlt, if_pos (by omega)]
    · rw [if_neg hlt, if_neg (by omega), hchars, Nat.add_comm, List.take_length_add_append]
  rw [visibleStop, visibleStop, hbefore]
  split
  · exact .inr ⟨rfl, Nat.zero_le _⟩
  · by_cases hvisible : ∃ x ∈ r.chars.take start, isBlank x = false
    · left
      rw [Text.trimEnd_append hvisible, List.length_append, Nat.add_comm]
    · right
      have hnil : Text.trimEnd (r.chars.take start) = [] :=
        Text.trimEnd_eq_nil fun x hx => by
          cases hb : isBlank x with
          | true => rfl
          | false => exact absurd ⟨x, hx, hb⟩ hvisible
      rw [hnil, Text.trimEnd_append_of_eq_nil hnil]
      exact ⟨rfl, Text.length_trimEnd_le front⟩

/-- Of comments behind some that are no block comments, the last one is chosen as without
them. -/
theorem filter_getLast?_append {front comments : List Comment} {stop : Nat}
    (hfront : ∀ comment ∈ front, comment.isBlock = false) :
    ((front ++ comments.map (Comment.moved n)).getLast?).filter
        (fun c => c.span.stop == stop + n && c.isBlock) =
      ((comments.getLast?).filter fun c => c.span.stop == stop && c.isBlock).map
        (Comment.moved n) := by
  cases hlast : comments.getLast? with
  | none =>
      rw [List.getLast?_eq_none_iff.mp hlast, List.map_nil, List.append_nil]
      cases hnone : front.getLast? with
      | none => rfl
      | some comment => simp [hfront comment (List.mem_of_getLast? hnone)]
  | some comment =>
      obtain ⟨earlier, rfl⟩ := List.getLast?_eq_some_iff.mp hlast
      have hsame : ((comment.moved n).span.stop == stop + n && (comment.moved n).isBlock) =
          (comment.span.stop == stop && comment.isBlock) := by
        have hstop : (comment.span.stop + n == stop + n) = (comment.span.stop == stop) := by
          rw [Bool.eq_iff_iff, beq_iff_eq, beq_iff_eq]
          omega
        simp only [Comment.moved, Span.moved, hstop]
      rw [List.map_append, ← List.append_assoc, List.map_singleton, List.getLast?_concat]
      simp only [Option.filter_some, hsame]
      split <;> rfl

/-- The same block comment stands before a position and before the same position further on. -/
theorem Behind.blockCommentBefore_add (h : Behind n lead r r') (hr : r.ReadTo z)
    (hr' : r'.ReadTo z') (start : Nat) :
    r'.blockCommentBefore (start + n) = (r.blockCommentBefore start).map (Comment.moved n) := by
  have hfront : ∀ stop, ∀ comment ∈ [lead].filter fun c => c.span.start < stop,
      comment.isBlock = false := by
    intro stop comment hmem
    rw [List.mem_singleton.mp (List.mem_of_mem_filter hmem), h.line]
  rw [blockCommentBefore_eq hr.inOrder, blockCommentBefore_eq hr'.inOrder, h.comments, ← List.singleton_append,
    List.filter_append, List.filter_map]
  rcases h.visibleStop_add start with hstop | ⟨hzero, hstop⟩
  · have hsame : ((fun c : Comment => decide (c.span.start < r.visibleStop start + n)) ∘
        Comment.moved n) = fun c => decide (c.span.start < r.visibleStop start) := by
      funext comment
      simp [Comment.moved, Span.moved]
    rw [hstop, hsame]
    exact filter_getLast?_append (hfront _)
  · -- Nothing is visible before the position, so no comment starts before that.
    have hnone : r.comments.toList.filter (fun c => c.span.start < r.visibleStop start) = [] := by
      simp [hzero]
    have hmoved : r.comments.toList.filter ((fun c : Comment =>
        decide (c.span.start < r'.visibleStop (start + n))) ∘ Comment.moved n) = [] := by
      rw [List.filter_eq_nil_iff]
      intro comment _
      have hstart : ¬ comment.span.start + n < r'.visibleStop (start + n) := by omega
      exact fun hlt => hstart (of_decide_eq_true hlt)
    rw [hnone, hmoved, List.map_nil, List.append_nil]
    cases hlast : ([lead].filter fun c =>
        decide (c.span.start < r'.visibleStop (start + n))).getLast? with
    | none => rfl
    | some comment => simp [hfront _ comment (List.mem_of_getLast? hlast)]

/-- Walking back over block comments comes to the same place further on. -/
theorem Behind.extendOverBlockComments_add (h : Behind n lead r r') (hr : r.ReadTo z)
    (hr' : r'.ReadTo z') (start : Nat) :
    r'.extendOverBlockComments (start + n) = r.extendOverBlockComments start + n := by
  induction start using Nat.strongRecOn with
  | ind start ih =>
      have hmoved := h.blockCommentBefore_add hr hr' start
      cases hcomment : r.blockCommentBefore start with
      | none =>
          rw [hcomment, Option.map_none] at hmoved
          rw [extendOverBlockComments_of_none hmoved, extendOverBlockComments_of_none hcomment]
      | some comment =>
          rw [hcomment, Option.map_some] at hmoved
          rw [extendOverBlockComments_of_some hr'.inOrder hmoved,
            extendOverBlockComments_of_some hr.inOrder hcomment]
          exact ih _ (start_lt_of_blockCommentBefore hr.inOrder hcomment)

end BlockComments

section Nodes

variable {parent : Option Text} {gap gap' : Option Nat}

theorem Behind.kindOf_moved (h : Behind n lead r r') (hr : r.ReadTo z) (hr' : r'.ReadTo z')
    (form : Form) : r'.kindOf (form.moved n) = r.kindOf form := by
  have htext : r'.textOf ∘ Span.moved n = r.textOf := funext h.textOf_moved
  have hparam : r'.paramText ∘ Span.moved n = r.paramText := by
    funext span
    have hstart := h.extendOverBlockComments_add hr hr' span.start
    simp only [Function.comp_apply, paramText, Span.moved, hstart]
    exact h.textOf_moved ⟨r.extendOverBlockComments span.start, span.stop⟩
  cases form with
  | function signature =>
      simp only [Form.moved, SignatureSpans.moved, kindOf, Option.map_map, List.map_map, htext,
        hparam]
  | «variable» ascription => simp only [Form.moved, kindOf, Option.map_map, htext]
  | _ => rfl

theorem qualifiesMembers_moved (form : Form) :
    qualifiesMembers (form.moved n) = qualifiesMembers form := by
  cases form <;> rfl

mutual

/-- A node is what it is without the text in front. -/
theorem Behind.detached_nodeOf (h : Behind n lead r r') (hr : r.ReadTo z) (hr' : r'.ReadTo z')
    (parent : Option Text) (gap gap' : Option Nat) (entry : Outline) :
    (r'.nodeOf parent gap' (entry.moved n)).detached = (r.nodeOf parent gap entry).detached := by
  obtain ⟨form, name, exported, span, bodyFrom, children⟩ := entry
  have htext : Text.slice r'.chars (span.start + n) (span.stop + n) =
      Text.slice r.chars span.start span.stop := h.textOf_moved span
  simp only [Outline.moved, nodeOf, Node.detached, Node.text, placeOf, Place.text, Span.moved,
    h.kindOf_moved hr hr', qualifiesMembers_moved]
  rw [Behind.detachedAll_nodesOf h hr hr' _ (bodyFrom.bind r.openBrace) _ children]
  exact congrArg _ (congrArg _ htext)

theorem Behind.detachedAll_nodesOf (h : Behind n lead r r') (hr : r.ReadTo z) (hr' : r'.ReadTo z')
    (parent : Option Text) (gap gap' : Option Nat) (entries : List Outline) :
    Node.detachedAll (r'.nodesOf parent gap' (Outline.movedAll n entries)) =
      Node.detachedAll (r.nodesOf parent gap entries) := by
  cases entries with
  | nil => rfl
  | cons entry rest =>
      simp only [Outline.movedAll, nodesOf, Node.detachedAll,
        Behind.detached_nodeOf h hr hr' parent gap gap' entry,
        Behind.detachedAll_nodesOf h hr hr' parent (some entry.span.stop)
          (some (entry.moved n).span.stop) rest]

end

end Nodes

section Opening

variable {line t : Text} {reading : Nat}

/-- A text behind a line comment is read if it is read without it. -/
theorem ofText?_behindLine (hline : ∀ x ∈ line, isLineBreak x = false)
    (ht : ¬ "#!".toList <+: t) (reading : Nat) :
    (ofText? reading (behindLine line t) = none ∧ ofText? reading t = none) ∨
      ∃ r r', ∃ lead : Comment, ofText? reading (behindLine line t) = some r' ∧
        ofText? reading t = some r ∧ lead.span = ⟨0, line.length + 2⟩ ∧
        Behind (lineWidth line) lead r r' := by
  have hunix := Text.unixLines_behindLine (t := t) hline
  have hopens : ¬ "#!".toList <+: Text.unixLines t := fun h => ht (Text.shebang_of_unixLines h)
  obtain ⟨lead, hspan, hblock, hread⟩ := readDocument_behindLine hline hopens
  rw [ofText?, ofText?, hunix, hread]
  cases readDocument (Text.unixLines t) with
  | none => exact .inl ⟨rfl, rfl⟩
  | some read =>
      right
      refine ⟨_, _, lead, rfl, rfl, hspan, ?_, rfl, rfl, hblock⟩
      exact behindLine_eq_append line (Text.unixLines t)

end Opening

end ReadText

namespace Document

/-- The statements of a document, without where they stand. -/
def detached (document : Document) : List Node :=
  Node.detachedAll document.statements

/-- The second text is read as the same statements as the first one, or neither is read.  It has
the comments of the first one behind one line comment that covers its first `width` characters. -/
structure ReadsBehind (width : Nat) (t t' : Text) (reading : Nat) (name : Text) : Prop where
  statements : (ofText reading name t').map detached = (ofText reading name t).map detached
  comments : ∀ r r', ReadText.ofText? reading t = some r → ReadText.ofText? reading t' = some r' →
    ∃ lead : Comment, lead.span = ⟨0, width⟩ ∧ lead.isBlock = false ∧
      r'.comments.toList = lead :: r.comments.toList.map (Comment.moved (width + 2))

/-- Behind a line comment a text is read as the same statements. -/
theorem readsBehind_behindLine {line t : Text} (hline : ∀ x ∈ line, isLineBreak x = false)
    (ht : ¬ "#!".toList <+: t) (reading : Nat) (name : Text) :
    ReadsBehind (line.length + 2) t (behindLine line t) reading name := by
  rcases ReadText.ofText?_behindLine hline ht reading with
    ⟨hnone, hnone'⟩ | ⟨r, r', lead, hr', hr, hspan, h⟩
  · refine ⟨by rw [ofText, ofText, hnone, hnone'], fun r r' hr => ?_⟩
    rw [hnone'] at hr
    cases hr
  · obtain ⟨-, z, hz⟩ := ReadText.readTo_of_ofText? hr
    obtain ⟨-, z', hz'⟩ := ReadText.readTo_of_ofText? hr'
    constructor
    · rw [ofText, ofText, hr, hr']
      simp only [Except.map, detached, ReadText.document, h.outline]
      rw [h.detachedAll_nodesOf hz hz' none (some 0) (some 0)]
    · intro s s' hs hs'
      obtain rfl := Option.some.inj (hr.symm.trans hs)
      obtain rfl := Option.some.inj (hr'.symm.trans hs')
      exact ⟨lead, hspan, h.line, h.comments⟩

/-- The text of the banner behind the mark of the comment. -/
def bannerLine (generator : Text) : Text :=
  " This file was generated by ".toList ++ generator ++ ['.']

theorem banner_eq_bannerLine (generator : Text) :
    banner generator = '/' :: '/' :: bannerLine generator := by
  have hmarks : "// This file was generated by ".toList =
      '/' :: '/' :: " This file was generated by ".toList := by simp
  unfold banner bannerLine
  rw [hmarks]
  generalize " This file was generated by ".toList = front
  rfl

theorem print_eq_behindLine (document : Document) (generator : Text) :
    document.print generator = behindLine (bannerLine generator) document.render := by
  rw [print, banner_eq_bannerLine]
  rfl

/-- A banner ends its line where the name in it does. -/
theorem exists_lineBreak_banner (generator : Text) :
    (∃ x ∈ banner generator, isLineBreak x = true) ↔ ∃ x ∈ generator, isLineBreak x = true := by
  have hfront : ∀ x ∈ "// This file was generated by ".toList, isLineBreak x = false := by
    simp [isLineBreak]
  have hback : isLineBreak '.' = false := by decide
  constructor
  · rintro ⟨x, hmem, hx⟩
    rcases List.mem_append.mp hmem with hmem | hmem
    · rcases List.mem_append.mp hmem with hmem | hmem
      · rw [hfront x hmem] at hx
        cases hx
      · exact ⟨x, hmem, hx⟩
    · rw [List.mem_singleton.mp hmem, hback] at hx
      cases hx
  · rintro ⟨x, hmem, hx⟩
    exact ⟨x, List.mem_append_left _ (List.mem_append_right _ hmem), hx⟩

/-- The letters that end a line besides the line feed. -/
def endsBanner : Text :=
  ['\r', '\u2028', '\u2029']

theorem isLineBreak_iff (x : Char) : isLineBreak x = true ↔ x = '\n' ∨ x ∈ endsBanner := by
  have hseparator : ∀ y : Char, x.toNat = y.toNat ↔ x = y := fun y => Char.toNat_inj
  have hls : x.toNat = 0x2028 ↔ x = '\u2028' := hseparator '\u2028'
  have hps : x.toNat = 0x2029 ↔ x = '\u2029' := hseparator '\u2029'
  simp only [isLineBreak, Bool.or_eq_true, beq_iff_eq, hls, hps, endsBanner, List.mem_cons,
    List.not_mem_nil, or_false, or_assoc]

/-- **The banner is one line** if and only if the name of the generator has no carriage return
and no line or paragraph separator.  Then the banner is one line comment in the printed text, and
what comes behind it is read as the rendering alone, unless that begins with the line of an
interpreter. -/
theorem print_reads_as_render (config : Configuration) (hcheck : config.check = .ok ())
    (document : Document) :
    ((∃ x ∈ banner config.generator, isLineBreak x = true) ↔
        ∃ x ∈ endsBanner, x ∈ config.generator) ∧
      ((∀ x ∈ endsBanner, x ∉ config.generator) → ¬ "#!".toList <+: document.render →
        ∀ reading name, ReadsBehind (banner config.generator).length document.render
          (document.print config.generator) reading name) := by
  have hfeed : '\n' ∉ config.generator := by
    intro hmem
    unfold Configuration.check at hcheck
    split at hcheck
    · cases hcheck
    · rw [if_pos (List.contains_iff_mem.mpr hmem)] at hcheck
      cases hcheck
  have hends : (∃ x ∈ config.generator, isLineBreak x = true) ↔
      ∃ x ∈ endsBanner, x ∈ config.generator := by
    constructor
    · rintro ⟨x, hmem, hx⟩
      rcases (isLineBreak_iff x).mp hx with rfl | hx
      · exact absurd hmem hfeed
      · exact ⟨x, hx, hmem⟩
    · rintro ⟨x, hx, hmem⟩
      exact ⟨x, hmem, (isLineBreak_iff x).mpr (.inr hx)⟩
  have hbanner := (exists_lineBreak_banner config.generator).trans hends
  refine ⟨hbanner, fun hnone hopens reading name => ?_⟩
  rw [print_eq_behindLine]
  rw [banner_eq_bannerLine] at hbanner ⊢
  refine readsBehind_behindLine ?_ hopens reading name
  intro x hmem
  cases hx : isLineBreak x with
  | false => rfl
  | true =>
      -- The banner would end its line only if the name of the generator did.
      obtain ⟨y, hy, hgenerator⟩ := hbanner.mp
        ⟨x, List.mem_cons_of_mem '/' (List.mem_cons_of_mem '/' hmem), hx⟩
      exact absurd hgenerator (hnone y hy)

/-- The name in the standard banner, over a document with comments. -/
theorem print_reads_as_render_standard :
    ∃ document, ofText 0 [] "/** a */ type A = 1;\n// b\n".toList = .ok document ∧
      Configuration.standard.check = .ok () ∧
      (∀ x ∈ endsBanner, x ∉ Configuration.standard.generator) ∧
      ¬ "#!".toList <+: document.render ∧
      ReadsBehind (banner Configuration.standard.generator).length document.render
        (document.print Configuration.standard.generator) 1 [] := by
  obtain ⟨document, hdocument, hopens⟩ := exists_ok_of_any
    (ofText 0 [] "/** a */ type A = 1;\n// b\n".toList)
    (fun document => ¬ "#!".toList <+: document.render) (by decide +kernel)
  have hcheck : Configuration.standard.check = .ok () := by decide +kernel
  have hall : endsBanner.all (fun x => !Configuration.standard.generator.contains x) = true := by
    decide +kernel
  have hnone : ∀ x ∈ endsBanner, x ∉ Configuration.standard.generator := by
    intro x hx hmem
    have hnot := List.all_eq_true.mp hall x hx
    rw [List.contains_iff_mem.mpr hmem] at hnot
    cases hnot
  exact ⟨document, hdocument, hcheck, hnone, hopens,
    (print_reads_as_render .standard hcheck document).2 hnone hopens 1 []⟩

/-- A generator whose name goes on behind a carriage return. -/
def leakyGenerator : Text :=
  "x\rtype B = 2;//".toList

/-- The names of the statements of a text, if it is well formed. -/
def namesOf (t : Text) : Option (List Text) :=
  (ofText 1 [] t).toOption.map fun document => document.statements.filterMap Node.name

/-- A name with a carriage return is accepted, and what stands behind that is read as code. -/
theorem exists_print_leaks :
    ∃ config : Configuration, ∃ document, config.check = .ok () ∧
      ofText 0 [] "type A = 1;\n".toList = .ok document ∧
      namesOf (document.print config.generator) = some ["B".toList, "A".toList] ∧
      namesOf document.render = some ["A".toList] := by
  obtain ⟨document, hdocument, hprinted, hrendered⟩ := exists_ok_of_any
    (ofText 0 [] "type A = 1;\n".toList)
    (fun document => namesOf (document.print leakyGenerator) = some ["B".toList, "A".toList] ∧
      namesOf document.render = some ["A".toList]) (by decide +kernel)
  have hcheck : { Configuration.standard with generator := leakyGenerator }.check = .ok () := by
    decide +kernel
  exact ⟨_, document, hcheck, hdocument, hprinted, hrendered⟩

end Document

end Typings

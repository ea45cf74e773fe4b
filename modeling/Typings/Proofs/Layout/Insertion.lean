import Mathlib.Data.List.Basic
import Typings.Proofs.Merging.Injection
import Typings.Proofs.Merging.PassThrough
import Typings.Proofs.Documentation.Walk

/-!
# Members at any place

The children of an interface that was read can have any number of other nodes between them, made
ones or nodes of other texts.  The interface is then laid out as the pieces of its own text with
the other nodes between them, in the order of the children.

**Pieces.**  The head of the interface up to its brace is copied, and so is every child with the
text in front of it, and the rest behind the last one.  Only the white space at the front of a
piece that follows another node may become a line break and an indent.

**Lines.**  Each of the other nodes begins on a line of its own, behind an indent.  Nothing but
white space stands behind it on the line where it ends.
-/

namespace Typings

namespace Node

section Interleaving

/-- The node was made, or read from another text. -/
def IsForeign (reading : Nat) (node : Node) : Prop :=
  node.source?.map SourceText.reading ≠ some reading

instance (reading : Nat) (node : Node) : Decidable (node.IsForeign reading) :=
  inferInstanceAs (Decidable (¬ _))

/-- The children are the originals in their order, with foreign nodes anywhere between them. -/
inductive Interleaves (reading : Nat) : List Node → List Node → Prop
  | nil : Interleaves reading [] []
  | original {node : Node} {originals children : List Node} :
      Interleaves reading originals children →
      Interleaves reading (node :: originals) (node :: children)
  | inserted {node : Node} {originals children : List Node} :
      node.IsForeign reading → Interleaves reading originals children →
      Interleaves reading originals (node :: children)

/-- The text of a node, with its documentation on the lines before. -/
def documentedText (indent : Text) (node : Node) : Text :=
  underDoc indent node.doc node.bodyText

/-- The piece is written as it stands.  Behind an inserted node it begins with a line break, and if
it has none of its own, a line break and an indent take the place of its white space in front. -/
structure Resumes (afterInsert : Bool) (piece written : Text) : Prop where
  text : written = piece ∨ afterInsert = true ∧ Text.startsWithBreak piece = false ∧
    ∃ indent, (∀ c ∈ indent, Text.isIndent c = true) ∧
      written = '\n' :: (indent ++ Text.trimStart piece)
  startsWithBreak : afterInsert = true → Text.startsWithBreak written = true

/-- What is written for the children of a place and for what is left of it, from a position of its
text on; `afterInsert` tells that an inserted node stands before. -/
inductive Woven (place : Place) (indent : Text) : Nat → Bool → List Node → Text → Prop
  | rest {position : Nat} {afterInsert : Bool} {written : Text} :
      Resumes afterInsert (place.between position place.range.stop) written →
      Woven place indent position afterInsert [] written
  | original {position : Nat} {afterInsert : Bool} {node : Node} {inner : Place}
      {children : List Node} {written more : Text} :
      node.place? = some inner → inner.source = place.source → inner.leading.start = position →
      Resumes afterInsert (place.between position inner.range.stop) written →
      Woven place indent inner.range.stop false children more →
      Woven place indent position afterInsert (node :: children) (written ++ more)
  | inserted {position : Nat} {afterInsert : Bool} {node : Node} {children : List Node}
      {more : Text} :
      node.IsForeign place.source.reading →
      Woven place indent position true children more →
      Woven place indent position afterInsert (node :: children)
        ('\n' :: (indent ++ node.documentedText indent) ++ more)

end Interleaving

section Resuming

variable {afterInsert : Bool} {indent piece rest : Text}

theorem startsWithBreak_newline (t : Text) : Text.startsWithBreak ('\n' :: t) = true := by
  have hblank : isBlank '\n' = true := by decide
  simp [Text.startsWithBreak, Text.openingBlank, hblank]

theorem startsWithBreak_append (h : Text.startsWithBreak piece = true) :
    Text.startsWithBreak (piece ++ rest) = true := by
  have hmem : '\n' ∈ Text.openingBlank piece := by simpa [Text.startsWithBreak] using h
  have hprefix : Text.openingBlank piece <+: Text.openingBlank (piece ++ rest) := by
    rw [Text.openingBlank, Text.openingBlank, List.takeWhile_append]
    split
    · exact List.takeWhile_prefix _ |>.trans (List.prefix_append _ _)
    · exact List.prefix_rfl
  simpa [Text.startsWithBreak] using hprefix.subset hmem

theorem resumes_continued (hindent : ∀ c ∈ indent, Text.isIndent c = true) (piece : Text) :
    Resumes afterInsert piece (continued afterInsert indent piece) := by
  unfold continued
  split
  · rename_i hbroken
    obtain ⟨hafter, hnone⟩ : afterInsert = true ∧ Text.startsWithBreak piece = false := by
      simpa using hbroken
    exact ⟨.inr ⟨hafter, hnone, indent, hindent, rfl⟩, fun _ => startsWithBreak_newline _⟩
  · rename_i hbroken
    refine ⟨.inl rfl, fun hafter => ?_⟩
    simpa [hafter] using hbroken

theorem isIndent_of_mem_lineIndent {t : Text} {position : Nat} {c : Char}
    (h : c ∈ Text.lineIndent t position) : Text.isIndent c = true :=
  List.mem_takeWhile_imp h

/-- Members are indented by spaces and tabs. -/
theorem isIndent_of_mem_memberIndent {place : Place} {members : List Node} {c : Char}
    (h : c ∈ place.memberIndent members) : Text.isIndent c = true := by
  unfold Place.memberIndent at h
  dsimp only at h
  cases hown : (members.filterMap place.innerPlace?).findSome? fun inner =>
      Text.ownLineIndent? place.chars inner.range.start with
  | none =>
      rw [hown, Option.getD_none, List.mem_append] at h
      rcases h with h | h
      · exact isIndent_of_mem_lineIndent h
      · rw [List.eq_of_mem_replicate h]
        rfl
  | some own =>
      rw [hown, Option.getD_some] at h
      obtain ⟨inner, -, hinner⟩ := List.exists_of_findSome?_eq_some hown
      unfold Text.ownLineIndent? at hinner
      dsimp only at hinner
      split at hinner
      · rename_i hall
        obtain rfl := Option.some.inj hinner
        exact List.all_eq_true.mp hall c h
      · cases hinner

end Resuming

section Weaving

variable {place : Place} {source : SourceText} {originals children : List Node} {m : Nat}
  {indent : Text}

/-- A foreign node has no place in the text. -/
theorem IsForeign.innerPlace?_eq {node : Node} (h : node.IsForeign place.source.reading) :
    place.innerPlace? node = none := by
  rw [Place.innerPlace?, Option.filter_eq_none_iff]
  intro inner hinner hholds
  refine h ?_
  have hsame : inner.source.reading = place.source.reading := by
    simp only [Place.holds, SourceText.same, Bool.and_eq_true, beq_iff_eq] at hholds
    exact hholds.1.1
  simp [source?, hinner, hsame]

/-- The children of a place are woven into what is left of its text, where the originals among
them tile the text and have no documentation. -/
theorem woven_membersText (hweave : Interleaves source.reading originals children)
    (hsource : place.source = source) (hm : place.membersAt = some m)
    (hstart : place.range.start ≤ m) (hindent : ∀ c ∈ indent, Text.isIndent c = true)
    {position last : Nat} (h : Node.TileAll source position originals last)
    (hlast : last ≤ place.range.stop) (hposition : m ≤ position)
    (hdocs : marksAll originals = []) (afterInsert : Bool) :
    Woven place indent position afterInsert children
      (membersText place indent position afterInsert children) := by
  induction hweave generalizing position afterInsert with
  | nil =>
      rw [membersText]
      exact .rest (resumes_continued (fun _ => isIndent_of_mem_lineIndent) _)
  | @original node originals children _ ih =>
      obtain ⟨hnode, hothers⟩ := List.append_eq_nil_iff.mp hdocs
      cases h with
      | cons htiles hrest =>
          obtain ⟨inner, hlaid, rfl⟩ := laidOut_of_tiles node htiles
          have hlo := hlaid.stands.lo_le
          have hlt := hlaid.stands.lt
          have hstop := Nat.le_trans hrest.le hlast
          obtain ⟨x, hx, hblank⟩ := hlaid.stands.visible
          obtain ⟨hleading, hbody⟩ := hlaid.text_append_drop hnode
          have hinner := hlaid.innerPlace?_eq hsource (by omega) hstop
          have hplace : node.place? = some inner := by rw [place?, hlaid.origin]
          -- Whether the piece has to start on a new line is decided in front of the child.
          have hpiece : continued afterInsert indent
                (place.between position inner.leading.start ++ inner.leadingText node.doc) ++
              node.bodyText =
              continued afterInsert indent (place.between position inner.range.stop) := by
            have hvisible : ∃ rest, node.bodyText = x :: rest :=
              ⟨_, hlaid.body.trans (Text.edited_eq_cons hx hlaid.edits)⟩
            obtain ⟨rest, hrest⟩ := hvisible
            rw [hrest, continued_append_cons _ hblank, ← hrest, hleading, hbody,
              hlaid.stands.leading_start, Place.between, Place.between, Place.chars, hsource,
              Text.slice_self, List.nil_append, Text.slice_append_slice _ hlo hlt.le]
          rw [membersText, hinner]
          dsimp only
          rw [hpiece]
          exact .original hplace (hlaid.stands.source_eq.trans hsource.symm)
            hlaid.stands.leading_start (resumes_continued hindent _)
            (ih hrest (by omega) hothers false)
  | inserted hforeign _ ih =>
      rw [← hsource] at hforeign
      rw [membersText, hforeign.innerPlace?_eq]
      simp only [hm, Option.getD_some, Nat.max_eq_right hposition, insertedText_eq, Place.between,
        Text.slice_self, List.nil_append]
      exact .inserted hforeign (ih h hposition hdocs true)

/-- The head of a place is copied up to its brace, whatever children follow. -/
theorem membersText_eq_head (hweave : Interleaves source.reading originals children)
    (hsource : place.source = source) (hm : place.membersAt = some m)
    (hstart : place.range.start ≤ m) {last : Nat} (h : Node.TileAll source m originals last)
    (hlast : last ≤ place.range.stop) (indent : Text) :
    membersText place indent place.range.start false children =
      place.between place.range.start m ++ membersText place indent m false children := by
  have hnone : place.between m m = [] := Text.slice_self ..
  cases hweave with
  | nil =>
      have hstop : m ≤ place.range.stop := Nat.le_trans h.le hlast
      simp only [membersText, continued, Bool.false_and, Bool.false_eq_true, if_false]
      exact (Text.slice_append_slice _ hstart hstop).symm
  | @original node _ children _ =>
      cases h with
      | cons htiles hrest =>
          obtain ⟨inner, hlaid, rfl⟩ := laidOut_of_tiles node htiles
          have hinner := hlaid.innerPlace?_eq hsource hstart (Nat.le_trans hrest.le hlast)
          rw [membersText, membersText, hinner]
          simp only [continued, Bool.false_and, Bool.false_eq_true, if_false,
            hlaid.stands.leading_start, hnone, List.nil_append, List.append_assoc]
  | inserted hforeign _ =>
      rw [← hsource] at hforeign
      rw [membersText, membersText, hforeign.innerPlace?_eq]
      simp only [hm, Option.getD_some, Nat.max_eq_left hstart, Nat.max_self, hnone,
        List.nil_append, List.append_assoc]

/-- Behind an inserted node the text goes on with a line break. -/
theorem Woven.startsWithBreak {position : Nat} {children : List Node} {text : Text}
    (h : Woven place indent position true children text) : Text.startsWithBreak text = true := by
  cases h with
  | rest hresumes => exact hresumes.startsWithBreak rfl
  | original _ _ _ hresumes _ => exact startsWithBreak_append (hresumes.startsWithBreak rfl)
  | inserted _ _ => exact startsWithBreak_newline _

/-- A foreign node that is woven in has its lines for itself. -/
theorem Woven.exists_lines {position : Nat} {afterInsert : Bool} {before after : List Node}
    {node : Node} {text : Text} (hforeign : node.IsForeign place.source.reading)
    (h : Woven place indent position afterInsert (before ++ node :: after) text) :
    ∃ front back, text = front ++ '\n' :: (indent ++ node.documentedText indent) ++ back ∧
      Text.startsWithBreak back = true := by
  induction before generalizing position afterInsert text with
  | nil =>
      rw [List.nil_append] at h
      cases h with
      | original hplace hsource _ _ _ =>
          refine absurd ?_ hforeign
          simp [source?, hplace, hsource]
      | inserted _ hmore => exact ⟨[], _, rfl, hmore.startsWithBreak⟩
  | cons first rest ih =>
      rw [List.cons_append] at h
      cases h with
      | @original _ _ _ _ _ written more _ _ _ _ hmore =>
          obtain ⟨front, back, rfl, hback⟩ := ih hmore
          exact ⟨written ++ front, back, by simp, hback⟩
      | @inserted _ _ _ _ more _ hmore =>
          obtain ⟨front, back, rfl, hback⟩ := ih hmore
          exact ⟨'\n' :: (indent ++ first.documentedText indent) ++ front, back, by simp, hback⟩

/-- An interface that stands in a text, with children woven into it. -/
theorem woven_bodyText_of_opensAt {node : Node} (hopen : node.OpensAt source place m)
    (hsource : place.source = source) (hdocs : node.marks = [])
    (hweave : Interleaves source.reading node.children children) :
    ∃ indent text, (∀ c ∈ indent, Text.isIndent c = true) ∧
      (node.withChildren children).bodyText = place.between place.range.start m ++ text ∧
      Woven place indent m false children text := by
  obtain ⟨kind, name, parent, exported, doc, originals, origin⟩ := node
  obtain ⟨horigin, hm, hlt, hle, -, last, hall, hlast⟩ := hopen
  cases horigin
  refine ⟨place.memberIndent children, membersText place (place.memberIndent children) m false
    children, fun _ => isIndent_of_mem_memberIndent, ?_, ?_⟩
  · rw [← membersText_eq_head hweave hsource hm hlt.le hall hlast, withChildren, bodyText]
    split
    · -- Without children the whole text is copied, which is the rest behind none of them.
      rename_i hempty
      rw [List.isEmpty_iff.mp hempty, membersText, continued, Bool.false_and,
        if_neg Bool.false_ne_true]
      rfl
    · rfl
  · exact woven_membersText hweave hsource hm hlt.le (fun _ => isIndent_of_mem_memberIndent) hall
      hlast le_rfl (List.append_eq_nil_iff.mp hdocs).2 false

end Weaving

end Node

namespace Document

variable {reading : Nat} {name t : Text} {document : Document} {node : Node}
  {children : List Node}

/-- Nodes put anywhere between the members of an interface stand between the pieces of its text,
in the order of the children and each with its lines for itself. -/
theorem woven_bodyText (h : ofText reading name t = .ok document.bare)
    (hnode : node ∈ Node.walkAll document.statements) (hkind : node.kind = .interface)
    (hdocs : node.marks = []) (hweave : Node.Interleaves reading node.children children) :
    ∃ place m indent text,
      node.place? = some place ∧ place.source = ⟨reading, Text.unixLines t⟩ ∧
      place.membersAt = some m ∧ place.range.start < m ∧ place.chars[m - 1]? = some '{' ∧
      (∀ c ∈ indent, Text.isIndent c = true) ∧
      (node.withChildren children).bodyText = place.between place.range.start m ++ text ∧
      Node.Woven place indent m false children text ∧
      ∀ before inserted after, children = before ++ inserted :: after →
        inserted.IsForeign reading →
        ∃ front back, text = front ++ '\n' :: (indent ++ inserted.documentedText indent) ++ back ∧
          Text.startsWithBreak back = true := by
  obtain ⟨stop, htiles, -, -⟩ := tileAll_of_ofText h
  obtain ⟨lo, hi, hnodeTiles⟩ := Node.tiles_of_mem_walkAll _ htiles hnode
  obtain ⟨place, m, hopen, hstands, -, -⟩ := Node.opensAt_of_tiles hnodeTiles hkind
  have hsource := hstands.source_eq
  obtain ⟨indent, text, hindent, hbody, hwoven⟩ :=
    Node.woven_bodyText_of_opensAt hopen hsource hdocs hweave
  refine ⟨place, m, indent, text, by rw [Node.place?, hopen.origin], hsource, hopen.membersAt,
    hopen.lt, by rw [Place.chars, hsource]; exact hopen.brace, hindent, hbody, hwoven, ?_⟩
  rintro before inserted after rfl hforeign
  exact Node.Woven.exists_lines (by rw [hsource]; exact hforeign) hwoven

/-- Members that were made and one of another text, around the members of a nested interface. -/
theorem woven_bodyText_around :
    let inserted := (Node.made .member "d".toList "d: 1".toList).withDoc (some (.line "d".toList))
    ∃ (t : Text) (document : Document) (node a b other : Node) (place : Place) (m : Nat)
        (indent text : Text),
      ofText 0 [] t = .ok document.bare ∧ node ∈ Node.walkAll document.statements ∧
      node.children = [a, b] ∧ other.source?.isSome = true ∧
      (node.withChildren [inserted, a, other, b, inserted]).bodyText =
        place.between place.range.start m ++ text ∧
      Node.Woven place indent m false [inserted, a, other, b, inserted] text := by
  intro inserted
  obtain ⟨document, hread, node, hnode, hkind, hchildren, hdocs⟩ := exists_ofText 0 []
    "declare namespace N \x7b\n  interface A \x7b a(): void; // a\n b: 1 // b\n \x7d\n\x7d".toList
    (fun document => ∃ node ∈ Node.walkAll document.statements,
      node.kind = .interface ∧ node.children.length = 2 ∧ node.marks.isEmpty = true)
    (by decide +kernel)
  obtain ⟨another, -, other, -, hplaced, hforeign⟩ := exists_ofText 1 []
    "interface A \x7b c(): void \x7d".toList
    (fun another => ∃ other ∈ Node.walkAll another.statements,
      other.source?.isSome = true ∧ other.IsForeign 0)
    (by decide +kernel)
  obtain ⟨a, b, hchildren⟩ := List.length_eq_two.mp hchildren
  have hmade : inserted.IsForeign 0 := by decide
  have hweave : Node.Interleaves 0 node.children [inserted, a, other, b, inserted] := by
    rw [hchildren]
    exact .inserted hmade (.original (.inserted hforeign (.original (.inserted hmade .nil))))
  have hbare := (bare_of_ofText hread).symm ▸ hread
  obtain ⟨place, m, indent, text, -, -, -, -, -, -, hbody, hwoven, -⟩ :=
    woven_bodyText hbare hnode hkind (List.isEmpty_iff.mp hdocs) hweave
  exact ⟨_, document, node, a, b, other, place, m, indent, text, hbare, hnode, hchildren,
    hplaced, hbody, hwoven⟩

end Document

end Typings

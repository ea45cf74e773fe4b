import Typings.Proofs.Layout.Copy
import Typings.Proofs.Merging.Exports
import Typings.Proofs.Reading.Exported

/-!
# What separates exports

Where only the exports of a document are laid out, the statements between them are left out.
Each export keeps the text in front of it, which reaches back to the statement before.

**Neighbours.**  Between two exports that are neighbours in the source stands a line break, or
the first one ends with a semicolon or a closing brace.

**Gaps.**  A statement that is left out takes along the line break in front of it.  Two exports
around it run into each other unless something else separates them: the end of the first one,
documentation of the second one, or a line break right in front of the second one.
-/

namespace Typings

open Syntax

/-- A line ends somewhere in the text. -/
def Text.HasLineBreak (t : Text) : Prop :=
  ∃ x ∈ t, isLineBreak x = true

instance (t : Text) : Decidable t.HasLineBreak :=
  decidable_of_iff (t.any isLineBreak = true) List.any_eq_true

namespace Node

/-- Nodes that tile a text take up some of it. -/
theorem TileAll.lt_of_cons {source : SourceText} {node : Node} {rest : List Node} {lo hi : Nat}
    (h : Node.TileAll source lo (node :: rest) hi) : lo < hi := by
  cases h with
  | cons hnode hrest =>
      cases hnode with
      | mk hstands _ _ _ =>
          have hlo := hstands.lo_le
          have hlt := hstands.lt
          have hle := hrest.le
          omega

/-- Each of the nodes that tile a text stands in it. -/
theorem tiles_of_mem {source : SourceText} {node : Node} {nodes : List Node} {lo hi : Nat}
    (h : Node.TileAll source lo nodes hi) (hmem : node ∈ nodes) :
    ∃ lo hi, Node.Tiles source lo node hi := by
  induction nodes generalizing lo with
  | nil => simp at hmem
  | cons first rest ih =>
      cases h with
      | cons hfirst hrest =>
          rcases List.mem_cons.mp hmem with rfl | hmem
          · exact ⟨_, _, hfirst⟩
          · exact ih hrest hmem

section Ends

variable {source : SourceText} {node : Node} {lo hi : Nat}

/-- The last character of a stretch of a text. -/
theorem getLast?_slice {t : Text} {start stop : Nat} (hlt : start < stop)
    (hstop : stop ≤ t.length) : (Text.slice t start stop).getLast? = t[stop - 1]? := by
  have hlength : (Text.slice t start stop).length = stop - start := by
    rw [Text.slice, List.length_take, List.length_drop]
    omega
  rw [List.getLast?_eq_getElem?, hlength, Text.slice, List.getElem?_take_of_lt (by omega),
    List.getElem?_drop]
  congr 1
  omega

mutual

/-- The text of a node ends as the source does where the node stands. -/
theorem getLast?_bodyText (node : Node) {lo hi : Nat} (h : Node.Tiles source lo node hi) :
    node.bodyText.getLast? = source.chars[hi - 1]? := by
  obtain ⟨kind, name, parent, exported, doc, children, origin⟩ := node
  cases h with
  | @mk _ inner last _ _ _ _ _ _ place hstands hopens hall hlast =>
      cases children with
      | nil =>
          have hbody : bodyText ⟨kind, name, parent, exported, doc, [], .placed place⟩ =
              Text.slice source.chars place.range.start place.range.stop := by
            simp [bodyText, Place.text, hstands.source_eq]
          rw [hbody]
          exact getLast?_slice hstands.lt hstands.stop_le
      | cons first rest =>
          exact getLast?_membersText (first :: rest) (place.memberIndent (first :: rest)) hall hlast
            hstands.source_eq hopens.lt.le hstands.lt hstands.stop_le

/-- What is left of a container ends as the source does where the container stands. -/
theorem getLast?_membersText (nodes : List Node) {place : Place} (indent : Text)
    {position lo last : Nat} (h : Node.TileAll source lo nodes last)
    (hlast : last ≤ place.range.stop) (hsource : place.source = source)
    (hstart : place.range.start ≤ lo) (hlt : position < place.range.stop)
    (hstop : place.range.stop ≤ source.chars.length) :
    (membersText place indent position false nodes).getLast? =
      source.chars[place.range.stop - 1]? := by
  cases nodes with
  | nil =>
      subst hsource
      exact getLast?_slice hlt hstop
  | cons node rest =>
      cases h with
      | @cons _ mid _ _ _ hnode hrest =>
          obtain ⟨inner, hlaid, rfl⟩ := laidOut_of_tiles node hnode
          have hinner := hlaid.innerPlace?_eq hsource hstart (Nat.le_trans hrest.le hlast)
          have hlo := hlaid.stands.lo_le
          have hnonempty := hlaid.stands.lt
          have hbody := getLast?_bodyText node hnode
          simp only [membersText, hinner]
          rw [List.getLast?_append, List.getLast?_append, hbody]
          by_cases hmore : inner.range.stop < place.range.stop
          · rw [getLast?_membersText rest indent hrest hlast hsource (by omega) hmore
              hstop, List.getElem?_eq_getElem (by omega), Option.some_or]
          · -- Nothing comes after the last member, which ends where the container does.
            have hle := hrest.le
            have hend : inner.range.stop = place.range.stop := by omega
            have hnone : rest = [] := by
              cases rest with
              | nil => rfl
              | cons next others =>
                  have hnext := hrest.lt_of_cons
                  omega
            subst hnone
            have hempty : membersText place indent inner.range.stop false [] = [] := by
              simp [membersText, continued, Place.between, Text.slice, hend]
            rw [hempty, List.getLast?_nil, Option.none_or, hend,
              List.getElem?_eq_getElem (by omega), Option.some_or]

end

end Ends

section Fronts

variable {node : Node} {place : Place}

/-- The text in front of a node, with the documentation written into it. -/
def frontText (node : Node) : Text :=
  match node.origin with
  | .placed place => place.leadingText node.doc
  | .made _ =>
      match node.doc with
      | some doc => doc.render [] ++ ['\n']
      | none => []

theorem statementText_eq (node : Node) : node.statementText = node.frontText ++ node.bodyText := by
  obtain ⟨kind, name, parent, exported, doc, children, origin⟩ := node
  cases origin with
  | placed place => rfl
  | made text => cases doc <;> simp [statementText, frontText, bodyText]

/-- The text between the node before and this one, as the source has it. -/
def gapText (node : Node) : Text :=
  match node.origin with
  | .placed place => place.between place.leading.start place.range.start
  | .made _ => []

theorem frontText_placed (h : node.origin = .placed place) :
    node.frontText = place.leadingText node.doc := by
  rw [frontText, h]

theorem gapText_placed (h : node.origin = .placed place) :
    node.gapText = place.between place.leading.start place.range.start := by
  rw [gapText, h]

/-- Without documentation the source is copied. -/
theorem frontText_of_doc_eq_none (hdoc : node.doc = none) : node.frontText = node.gapText := by
  rw [frontText, gapText, hdoc]
  cases node.origin <;> rfl

/-- Documentation stands on lines of its own. -/
theorem hasLineBreak_frontText (h : node.origin = .placed place) (hdoc : node.doc ≠ none) :
    node.frontText.HasLineBreak := by
  obtain ⟨doc, hdoc⟩ := Option.ne_none_iff_exists'.mp hdoc
  rw [frontText_placed h, hdoc, Place.leadingText]
  refine ⟨'\n', ?_, by decide⟩
  split
  · simp only [List.mem_append]
    right
    split
    · rename_i hcontains
      simpa using hcontains
    · simp
  · simp

/-- The text of the node ends with a semicolon or a closing brace. -/
def EndsItself (node : Node) : Prop :=
  node.bodyText.getLast? = some ';' ∨ node.bodyText.getLast? = some '}'

instance (node : Node) : Decidable node.EndsItself :=
  inferInstanceAs (Decidable (_ ∨ _))

/-- Laid out one behind the other, the two nodes do not run into each other. -/
def Apart (a b : Node) : Prop :=
  a.EndsItself ∨ b.frontText.HasLineBreak

instance (a b : Node) : Decidable (a.Apart b) :=
  inferInstanceAs (Decidable (_ ∨ _))

/-- The text of the exports among the nodes, one behind the other. -/
def exportedText (nodes : List Node) : Text :=
  (nodes.filter Node.exported).flatMap statementText

end Fronts

section Places

variable {a b : Node} {t : Text}

/-- The nodes stand in the text `t`, and if both are exported, something separates them. -/
def SeparatedIn (t : Text) (a b : Node) : Prop :=
  a.exported = true → b.exported = true →
    ∃ p q, a.origin = .placed p ∧ b.origin = .placed q ∧ Separated t p.range q.range

theorem bareAll_eq_map (nodes : List Node) : bareAll nodes = nodes.map bare := by
  induction nodes with
  | nil => rfl
  | cons node rest ih => rw [bareAll, ih, List.map_cons]

/-- Documentation does not matter to where nodes stand. -/
theorem separatedIn_of_bare (h : SeparatedIn t a.bare b.bare) : SeparatedIn t a b := by
  obtain ⟨⟩ := a
  obtain ⟨⟩ := b
  exact h

end Places

end Node

namespace ReadText

variable {r : ReadText}

theorem exported_nodeOf (parent : Option Text) (gap : Option Nat) (entry : Outline) :
    (r.nodeOf parent gap entry).exported = entry.exported := by
  obtain ⟨⟩ := entry
  rfl

theorem origin_nodeOf (parent : Option Text) (gap : Option Nat) (entry : Outline) :
    ∃ place, (r.nodeOf parent gap entry).origin = .placed place ∧ place.range = entry.span := by
  obtain ⟨⟩ := entry
  exact ⟨_, rfl, rfl⟩

/-- Nodes are separated as the entries they were made of. -/
theorem isChain_nodesOf {entries : List Outline}
    (h : entries.IsChain fun a b => a.exported = true → b.exported = true →
      Separated r.chars a.span b.span) (parent : Option Text) (gap : Option Nat) :
    (r.nodesOf parent gap entries).IsChain (Node.SeparatedIn r.chars) := by
  induction h generalizing gap with
  | nil => exact .nil
  | singleton entry => exact .singleton _
  | @cons_cons a b rest hab _ ih =>
      refine .cons_cons ?_ (ih (some a.span.stop))
      intro ha hb
      rw [exported_nodeOf] at ha hb
      obtain ⟨p, hp, hprange⟩ := r.origin_nodeOf parent gap a
      obtain ⟨q, hq, hqrange⟩ := r.origin_nodeOf parent (some a.span.stop) b
      refine ⟨p, q, hp, hq, ?_⟩
      rw [hprange, hqrange]
      exact hab ha hb

end ReadText

namespace Document

variable {reading : Nat} {name t : Text} {document : Document}

/-- Something separates exported statements that are neighbours in the text. -/
theorem isChain_separatedIn (h : ofText reading name t = .ok document.bare) :
    document.statements.IsChain (Node.SeparatedIn (Text.unixLines t)) := by
  simp only [ofText] at h
  split at h
  · rename_i r hread
    have hbare : r.nodesOf none (some 0) r.outline = document.statements.map Node.bare := by
      rw [← Node.bareAll_eq_map]
      exact congrArg Document.statements (Except.ok.inj h)
    obtain ⟨⟨entries, comments⟩, hentries, rfl⟩ := Option.map_eq_some_iff.mp hread
    have hchain := ReadText.isChain_nodesOf
      (r := ⟨⟨reading, Text.unixLines t⟩, entries, comments.toArray⟩)
      (readDocument_exports hentries).1 none (some 0)
    rw [hbare, List.isChain_map] at hchain
    exact hchain.imp fun a b hab => Node.separatedIn_of_bare hab
  · cases h

/-- The document with its exports alone. -/
def exportsOnly (document : Document) : Document :=
  { document with statements := document.exports }

section Rendering

variable {source : SourceText} {a b : Node} {before dropped after : List Node} {hi : Nat}

theorem exports_eq (hstatements : document.statements = before ++ a :: (dropped ++ b :: after))
    (ha : a.exported = true) (hb : b.exported = true)
    (hdropped : ∀ node ∈ dropped, node.exported = false) :
    document.exports =
      before.filter Node.exported ++ a :: b :: after.filter Node.exported := by
  have hnone : dropped.filter Node.exported = [] := by
    rw [List.filter_eq_nil_iff]
    intro node hnode
    simp [hdropped node hnode]
  rw [exports, hstatements, List.filter_append, List.filter_cons_of_pos ha, List.filter_append,
    hnone, List.nil_append, List.filter_cons_of_pos hb]

/-- A node that stands in a text begins with a character that is not blank. -/
theorem bodyText_eq_cons {lo : Nat} {node : Node} {nodes : List Node}
    (h : Node.TileAll source lo nodes hi) (hmem : node ∈ nodes) :
    ∃ x rest, node.bodyText = x :: rest ∧ isBlank x = false := by
  obtain ⟨_, _, hnode⟩ := Node.tiles_of_mem h hmem
  obtain ⟨place, hlaid, -⟩ := Node.laidOut_of_tiles node hnode
  obtain ⟨x, hx, hblank⟩ := hlaid.stands.visible
  exact ⟨x, _, by rw [hlaid.body, Text.edited_eq_cons hx hlaid.edits], hblank⟩

/-- Between two exports that follow one another stands the text in front of the second one. -/
theorem render_exportsOnly (h : Node.TileAll source 0 document.statements hi)
    (hstatements : document.statements = before ++ a :: (dropped ++ b :: after))
    (ha : a.exported = true) (hb : b.exported = true)
    (hdropped : ∀ node ∈ dropped, node.exported = false) :
    document.exportsOnly.render =
      Text.trimStart (Node.exportedText before ++ a.frontText) ++ a.bodyText ++ b.frontText ++
        Text.trimEnd (b.bodyText ++ Node.exportedText after ++ document.trailing) ++ ['\n'] := by
  have hexports := exports_eq hstatements ha hb hdropped
  have hshows := Node.shows_of_tileAll h
  obtain ⟨x, abody, habody, hx⟩ := bodyText_eq_cons h (show a ∈ _ by simp [hstatements])
  obtain ⟨y, bbody, hbbody, hy⟩ := bodyText_eq_cons h (show b ∈ _ by simp [hstatements])
  -- The exports are laid out one behind the other, since they come from one source.
  have hlaid : appendStatements [] none document.exports ++ document.trailing =
      Text.trimStart (document.exports.flatMap Node.statementText ++ document.trailing) := by
    cases hcase : document.exports with
    | nil =>
        rw [hcase] at hexports
        simp at hexports
    | cons first others =>
        have hmem : ∀ node ∈ first :: others, node ∈ document.statements := by
          intro node hnode
          rw [← hcase] at hnode
          exact (List.mem_filter.mp hnode).1
        have hsource : ∀ node ∈ first :: others, node.source? = some source := by
          intro node hnode
          exact (hshows node (hmem node hnode)).1
        exact appendStatements_none hsource (hshows first (hmem first List.mem_cons_self)).2 _
  have hvisible : ∃ c ∈ b.bodyText ++ Node.exportedText after ++ document.trailing,
      isBlank c = false := ⟨y, by simp [hbbody], hy⟩
  calc document.exportsOnly.render
      = Text.trimEnd (Text.trimStart (document.exports.flatMap Node.statementText ++
          document.trailing)) ++ ['\n'] := by rw [← hlaid]; rfl
    _ = Text.trimEnd (Text.trimStart (Node.exportedText before ++ a.frontText ++ x ::
          (abody ++ (b.frontText ++
            (b.bodyText ++ Node.exportedText after ++ document.trailing))))) ++ ['\n'] := by
        rw [hexports]
        simp [Node.exportedText, Node.statementText_eq, habody]
    _ = Text.trimEnd (Text.trimStart (Node.exportedText before ++ a.frontText) ++ a.bodyText ++
          b.frontText ++
            (b.bodyText ++ Node.exportedText after ++ document.trailing)) ++ ['\n'] := by
        rw [Text.trimStart_append_cons hx, habody]
        simp
    _ = _ := by rw [Text.trimEnd_append hvisible]

end Rendering

/-- What separates two neighbours stands at the end of the first one or in front of the second
one. -/
theorem endsItself_or_hasLineBreak {source : SourceText} {a b : Node} {after : List Node}
    {lo hi : Nat} (h : Node.TileAll source lo (a :: b :: after) hi)
    (hsep : Node.SeparatedIn source.chars a b) (ha : a.exported = true) (hb : b.exported = true) :
    a.EndsItself ∨ b.gapText.HasLineBreak := by
  obtain ⟨p, q, hp, hq, hsep⟩ := hsep ha hb
  cases h with
  | cons hfirst hrest =>
      cases hrest with
      | cons hsecond _ =>
          have hlast := Node.getLast?_bodyText a hfirst
          obtain ⟨p', hlaid, rfl⟩ := Node.laidOut_of_tiles a hfirst
          obtain ⟨q', hnext, -⟩ := Node.laidOut_of_tiles b hsecond
          obtain rfl : p' = p := by simpa [hlaid.origin] using hp
          obtain rfl : q' = q := by simpa [hnext.origin] using hq
          rcases hsep with hend | hbreak
          · left
            rw [Node.EndsItself, hlast]
            exact hend
          · right
            rw [Node.gapText_placed hnext.origin, Place.between, Place.chars,
              hnext.stands.source_eq, hnext.stands.leading_start]
            exact hbreak

/-- **What separates exports.**  Laid out without the statements between them, two exports that
follow one another do not run into each other exactly if they are neighbours in the source, the
second one is documented, a line ends right in front of the second one, or the first one ends
with a semicolon or a closing brace.  This holds whatever documentation is attached. -/
theorem apart_iff {before dropped after : List Node} {a b : Node}
    (h : ofText reading name t = .ok document.bare)
    (hstatements : document.statements = before ++ a :: (dropped ++ b :: after))
    (ha : a.exported = true) (hb : b.exported = true)
    (hdropped : ∀ node ∈ dropped, node.exported = false) :
    document.exportsOnly.render =
        Text.trimStart (Node.exportedText before ++ a.frontText) ++ a.bodyText ++ b.frontText ++
          Text.trimEnd (b.bodyText ++ Node.exportedText after ++ document.trailing) ++ ['\n'] ∧
      (a.Apart b ↔
        dropped = [] ∨ b.doc ≠ none ∨ b.gapText.HasLineBreak ∨ a.EndsItself) := by
  obtain ⟨stop, htiles, -⟩ := tileAll_of_ofText h
  have hchain := isChain_separatedIn h
  refine ⟨render_exportsOnly htiles hstatements ha hb hdropped, ?_⟩
  obtain ⟨q, hq⟩ : ∃ q, b.origin = .placed q := by
    obtain ⟨_, _, hnode⟩ := Node.tiles_of_mem htiles (show b ∈ _ by simp [hstatements])
    obtain ⟨q, hlaid, -⟩ := Node.laidOut_of_tiles b hnode
    exact ⟨q, hlaid.origin⟩
  have hfront : b.gapText.HasLineBreak → b.frontText.HasLineBreak := by
    intro hgap
    by_cases hdoc : b.doc = none
    · rw [Node.frontText_of_doc_eq_none hdoc]
      exact hgap
    · exact Node.hasLineBreak_frontText hq hdoc
  constructor
  · rintro (hends | hbreak)
    · exact .inr (.inr (.inr hends))
    · by_cases hdoc : b.doc = none
      · rw [Node.frontText_of_doc_eq_none hdoc] at hbreak
        exact .inr (.inr (.inl hbreak))
      · exact .inr (.inl hdoc)
  · rintro (rfl | hdoc | hgap | hends)
    · rw [hstatements] at htiles hchain
      obtain ⟨mid, -, htail⟩ := htiles.of_append
      have hsep := (List.isChain_append_cons_cons.mp hchain).2.1
      exact (endsItself_or_hasLineBreak htail hsep ha hb).imp_right hfront
    · exact .inr (Node.hasLineBreak_frontText hq hdoc)
    · exact .inr (hfront hgap)
    · exact .inl hends

/-- Documentation of the second export separates the two, although a statement between them
is left out. -/
theorem apart_iff_documented :
    ∃ (document : Document) (a dropped b : Node),
      ofText 0 [] "export let a: A\nlet x: X; /** b */ export let b: B".toList =
        .ok document.bare ∧
      document.statements = [] ++ a :: ([dropped] ++ b :: []) ∧ a.exported = true ∧
      b.exported = true ∧ (∀ node ∈ [dropped], node.exported = false) ∧
      document.exportsOnly.render =
        Text.trimStart (Node.exportedText [] ++ a.frontText) ++ a.bodyText ++ b.frontText ++
          Text.trimEnd (b.bodyText ++ Node.exportedText [] ++ document.trailing) ++ ['\n'] ∧
      (a.Apart b ↔
        [dropped] = [] ∨ b.doc ≠ none ∨ b.gapText.HasLineBreak ∨ a.EndsItself) := by
  obtain ⟨document, hread, hexported⟩ := exists_ofText 0 []
    "export let a: A\nlet x: X; /** b */ export let b: B".toList
    (fun document => document.documented.statements.map Node.exported = [true, false, true])
    (by decide +kernel)
  obtain ⟨a, dropped, b, hstatements⟩ : ∃ a dropped b,
      document.documented.statements = [a, dropped, b] := by
    have hlength := congrArg List.length hexported
    rw [List.length_map] at hlength
    exact List.length_eq_three.mp hlength
  rw [hstatements] at hexported
  obtain ⟨ha, hdropped, hb⟩ : a.exported = true ∧ dropped.exported = false ∧
      b.exported = true := by simpa using hexported
  have hnone : ∀ node ∈ [dropped], node.exported = false := by simpa using hdropped
  have hsplit : document.documented.statements = [] ++ a :: ([dropped] ++ b :: []) := hstatements
  exact ⟨document.documented, a, dropped, b, ofText_documented hread, hsplit, ha, hb, hnone,
    apart_iff (ofText_documented hread) hsplit ha hb hnone⟩

/-- Two exports run into each other where the statement between them is left out together with
the line break in front of it. -/
theorem exists_not_apart :
    ∃ document : Document,
      ofText 0 [] "export function f(): void\nfunction g(): void; export function h(): void".toList =
        .ok document ∧
      ¬ document.exports.IsChain Node.Apart ∧
      document.exportsOnly.render =
        "export function f(): void export function h(): void\n".toList :=
  exists_ofText _ _ _
    (fun document => ¬ document.exports.IsChain Node.Apart ∧ document.exportsOnly.render =
      "export function f(): void export function h(): void\n".toList) (by decide +kernel)

end Document

end Typings

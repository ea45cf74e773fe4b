import Typings.Documentation.Index
import Typings.Proofs.Layout.Flat
import Typings.Proofs.Reading.Nodes

/-!
# Documents as edited copies

A document that was read, with whatever documentation attached to its nodes, is laid out as
the text that was read with the documentation edited in.
-/

namespace Typings

namespace Node

mutual

/-- Documenting a node changes nothing but documentation. -/
theorem bare_documented (node : Node) : node.documented.bare = node.bare := by
  obtain ⟨kind, name, parent, exported, doc, children, origin⟩ := node
  simp only [documented, bare, bareAll_documentedAll children]

theorem bareAll_documentedAll (nodes : List Node) :
    bareAll (documentedAll nodes) = bareAll nodes := by
  cases nodes with
  | nil => rfl
  | cons node rest => simp only [documentedAll, bareAll, bare_documented node,
      bareAll_documentedAll rest]

end

end Node

namespace ReadText

open Syntax

variable {r : ReadText}

mutual

/-- A node that was read has no documentation yet. -/
theorem bare_nodeOf (parent : Option Text) (gap : Option Nat) (entry : Outline) :
    (r.nodeOf parent gap entry).bare = r.nodeOf parent gap entry := by
  obtain ⟨form, name, exported, span, bodyFrom, children⟩ := entry
  simp only [nodeOf, Node.bare, bareAll_nodesOf _ _ children]

theorem bareAll_nodesOf (parent : Option Text) (gap : Option Nat) (entries : List Outline) :
    Node.bareAll (r.nodesOf parent gap entries) = r.nodesOf parent gap entries := by
  cases entries with
  | nil => rfl
  | cons entry rest =>
      simp only [nodesOf, Node.bareAll, bare_nodeOf _ _ entry, bareAll_nodesOf _ _ rest]

end

end ReadText

/-- A property that can be tested of a result, where there is one. -/
theorem exists_ok_of_any {ε α : Type} (outcome : Except ε α) (P : α → Prop) [DecidablePred P]
    (h : outcome.toOption.any (fun value => decide (P value)) = true) :
    ∃ value, outcome = .ok value ∧ P value := by
  cases outcome with
  | error failure => cases h
  | ok value => exact ⟨value, rfl, of_decide_eq_true h⟩

namespace Document

variable {reading : Nat} {name t : Text} {document : Document}

/-- The statements of a document that was read tile its text, whatever documentation is
attached to them. -/
theorem tileAll_of_ofText (h : ofText reading name t = .ok document.bare) :
    ∃ stop, Node.TileAll ⟨reading, Text.unixLines t⟩ 0 document.statements stop ∧
      document.trailing = (Text.unixLines t).drop stop ∧ document.name = name := by
  simp only [ofText] at h
  split at h
  · rename_i r hread
    have hbare : r.document name = document.bare := by simpa using h
    obtain ⟨hsource, -⟩ := ReadText.readTo_of_ofText? hread
    have htiles := ReadText.tileAll_document hread name
    rw [hbare, hsource] at htiles
    refine ⟨r.outlineStop, Node.tileAll_of_bareAll _ htiles, ?_, ?_⟩
    · have htrailing := congrArg Document.trailing hbare
      simpa [ReadText.document, bare, ReadText.chars, hsource] using htrailing.symm
    · exact (congrArg Document.name hbare).symm
  · simp at h

/-- A document that was read has no documentation yet. -/
theorem bare_of_ofText (h : ofText reading name t = .ok document) : document.bare = document := by
  simp only [ofText] at h
  split at h
  · obtain rfl : _ = document := by simpa using h
    simp [bare, ReadText.document, ReadText.bareAll_nodesOf]
  · simp at h

/-- A property that can be tested of what a text is read as. -/
theorem exists_ofText (reading : Nat) (name t : Text) (P : Document → Prop) [DecidablePred P]
    (h : (ofText reading name t).toOption.any (fun document => decide (P document)) = true) :
    ∃ document, ofText reading name t = .ok document ∧ P document :=
  exists_ok_of_any _ P h

/-- A document that was read and then documented is the document that was read. -/
theorem ofText_documented (h : ofText reading name t = .ok document) :
    ofText reading name t = .ok document.documented.bare := by
  have hbare : document.documented.bare = document.bare := by
    simp only [bare, documented, Node.bareAll_documentedAll]
  rw [hbare, bare_of_ofText h, h]

/-- Laying out a document that was read and then documented in any way applies one edit for
each node with documentation, the one that writes it.  The edits do not overlap. -/
theorem render_eq_edited (h : ofText reading name t = .ok document.bare) :
    (∀ edits, List.Forall₂ (fun mark edit => mark.1.Writes (Text.unixLines t) mark.2 edit)
      document.marks edits ↔ edits = document.edits) ∧
    Edits 0 document.edits (Text.unixLines t).length ∧
      document.render =
        document.trimmed (Text.edited (Text.unixLines t) 0 (Text.unixLines t).length
          document.edits) ++ ['\n'] ∧
      (document.edits = [] → document.render = document.trimmed (Text.unixLines t) ++ ['\n']) := by
  obtain ⟨stop, htiles, htrailing, -⟩ := tileAll_of_ofText h
  obtain ⟨hedits, hrender⟩ := render_eq_of_tileAll htiles htrailing
  have hstands : ∀ mark ∈ document.marks,
      ∃ lo, mark.1.Stands ⟨reading, Text.unixLines t⟩ lo := fun mark hmark =>
    Node.stands_of_mem_marksAll _ htiles hmark
  refine ⟨fun edits => Node.forall₂_writes_iff hstands, hedits, hrender, fun hnone => ?_⟩
  rw [hrender, hnone, Text.edited, Text.slice_zero_length]

/-- Documentation at two depths. -/
theorem render_eq_edited_interface :
    ∃ (t : Text) (document : Document), ofText 0 [] t = .ok document.bare ∧
      document.edits.length = 2 ∧
      List.Forall₂ (fun mark edit => mark.1.Writes (Text.unixLines t) mark.2 edit)
        document.marks document.edits ∧
      Edits 0 document.edits (Text.unixLines t).length ∧
      document.render = document.trimmed (Text.edited (Text.unixLines t) 0
        (Text.unixLines t).length document.edits) ++ ['\n'] := by
  obtain ⟨document, hread, hlength⟩ := exists_ofText 0 []
    "// a\ninterface A \x7b\n  /* b */ x: number;\n\x7d".toList
    (fun document => document.documented.edits.length = 2) (by decide +kernel)
  have hbare := ofText_documented hread
  obtain ⟨hwrites, hedits, hrender, -⟩ := render_eq_edited hbare
  exact ⟨_, document.documented, hbare, hlength, (hwrites _).mpr rfl, hedits, hrender⟩

end Document

end Typings

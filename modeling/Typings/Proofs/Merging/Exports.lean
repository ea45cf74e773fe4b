import Typings.Proofs.Layout.Flat

/-!
# Statements behind exports

Exports stand in front of statements of another source.  The white space around the two is
left out, and one blank line stands between them.
-/

namespace Typings

section Exports

variable {source : SourceText} {exports nodes : List Node} {first : Node}

/-- A statement of `source` with a text that is not blank all over. -/
def Node.Shows (node : Node) (source : SourceText) : Prop :=
  node.source? = some source ∧ ∃ x ∈ node.statementText, isBlank x = false

theorem Node.shows_of_tileAll {lo hi : Nat} (h : Node.TileAll source lo nodes hi) :
    ∀ node ∈ nodes, node.Shows source := by
  induction nodes generalizing lo with
  | nil => simp
  | cons node rest ih =>
      cases h with
      | cons hnode hrest =>
          obtain ⟨place, hlaid, rfl⟩ := Node.laidOut_of_tiles node hnode
          exact List.forall_mem_cons.mpr ⟨⟨hlaid.source?_eq, hlaid.visible⟩, ih hrest⟩

namespace Document

/-- What stands in front of a generated text: the exports and a blank line. -/
def heading (exports : List Node) : Text :=
  if exports.isEmpty then [] else
    Text.trimEnd (Document.render ⟨[], exports, []⟩) ++ ['\n', '\n']

/-- A text behind exports. -/
def behindExports (exports : List Node) (t : Text) : Text :=
  heading exports ++ Text.trim t ++ ['\n']

theorem heading_of_ne_nil (h : exports ≠ []) :
    heading exports = Text.trimEnd (appendStatements [] none exports) ++ ['\n', '\n'] := by
  have hbreak : Text.trimEnd ['\n'] = [] := by decide
  rw [heading, if_neg (by simpa using h), render, Text.trimEnd_append_of_eq_nil hbreak,
    Text.trimEnd_trimEnd, List.append_nil]

theorem appendStatements_append (written : Text) (before : Option Node) (nodes : List Node) :
    appendStatements written before (exports ++ nodes) =
      appendStatements (appendStatements written before exports)
        (exports.getLast?.or before) nodes := by
  induction exports generalizing written before with
  | nil => rfl
  | cons node rest ih =>
      rw [List.cons_append, appendStatements, ih, appendStatements, List.getLast?_cons]
      cases rest.getLast? <;> rfl

/-- Exports of another source in front of statements. -/
theorem appendStatements_exports (hsource : ∀ node ∈ first :: nodes, node.source? = some source)
    (hvisible : ∃ x ∈ first.statementText, isBlank x = false)
    (hexports : ∀ node ∈ exports, node.source?.map SourceText.reading ≠ some source.reading)
    (rest : Text) :
    appendStatements [] none (exports ++ first :: nodes) ++ rest =
      heading exports ++ Text.trimStart ((first :: nodes).flatMap Node.statementText ++ rest) := by
  cases hlast : exports.getLast? with
  | none =>
      obtain rfl := List.getLast?_eq_none_iff.mp hlast
      rw [List.nil_append, appendStatements_none hsource hvisible]
      rfl
  | some last =>
      have hmem := List.mem_of_getLast? hlast
      obtain ⟨hfirst, hothers⟩ := List.forall_mem_cons.mp hsource
      have hother : sameSource last first = false := by
        have hne := hexports last hmem
        unfold sameSource
        rw [hfirst]
        cases hsame : last.source? with
        | none => rfl
        | some other => simpa [hsame, SourceText.same] using hne
      have hseparator : separator last first = ['\n', '\n'] := by simp [separator, hfirst]
      rw [appendStatements_append, hlast, heading_of_ne_nil (List.ne_nil_of_mem hmem),
        Option.some_or, appendStatements, appendStatement, if_neg (by simp [hother]),
        hseparator, appendStatements_same hfirst hothers]
      simp only [List.flatMap_cons, List.append_assoc, Text.trimStart_append hvisible]

/-- A document of one source behind exports of another. -/
theorem render_exports (hne : nodes ≠ []) (hshows : ∀ node ∈ nodes, node.Shows source)
    (hexports : ∀ node ∈ exports, node.source?.map SourceText.reading ≠ some source.reading)
    (name trailing : Text) :
    Document.render ⟨name, exports ++ nodes, trailing⟩ =
      behindExports exports (nodes.flatMap Node.statementText ++ trailing) := by
  obtain ⟨first, rest, rfl⟩ := List.exists_cons_of_ne_nil hne
  have hvisible := (hshows first (by simp)).2
  have hall : ∃ x ∈ (first :: rest).flatMap Node.statementText ++ trailing,
      isBlank x = false := by
    obtain ⟨x, hmem, hx⟩ := hvisible
    exact ⟨x, by simp [hmem], hx⟩
  rw [render, appendStatements_exports (fun node hnode => (hshows node hnode).1) hvisible hexports,
    Text.trimEnd_append (Text.exists_mem_trimStart hall), behindExports, Text.trim]

end Document

end Exports

end Typings

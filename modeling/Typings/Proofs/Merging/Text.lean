import Typings.Merging
import Typings.Proofs.Merging.Injection

/-!
# The text of a merge

A merge of two texts succeeds if its settings can drive it and both texts are read.  Its text
holds the exports, then the generated statements, and is meant to be read again.

**Reading it again.**  Documentation is written as it was found.  Documentation that ends a
comment early leaves the rest of its line outside of any comment.
-/

namespace Typings

namespace Merged

variable {config : Configuration} {helpersText generatedText : Text} {merged : Merged}

/-- When a merge of two texts succeeds, and with what. -/
theorem ofTexts_eq_ok_iff :
    ofTexts config helpersText generatedText = .ok merged ↔
      config.check = .ok () ∧ ∃ helpers generated,
        Document.ofText 0 config.handAuthored helpersText = .ok helpers ∧
        Document.ofText 1 config.generated generatedText = .ok generated ∧
        merged = ofDocuments helpers generated config := by
  unfold ofTexts
  cases hcheck : config.check with
  | error failure => simp [bind, Except.bind]
  | ok _ =>
      cases hhelpers : Document.ofText 0 config.handAuthored helpersText with
      | error failure => simp [bind, Except.bind]
      | ok helpers =>
          cases hgenerated : Document.ofText 1 config.generated generatedText with
          | error failure => simp [bind, Except.bind]
          | ok generated => simp [bind, Except.bind, pure, Except.pure, eq_comm]

end Merged

namespace Document

/-- What reading a merged text again must keep of a statement. -/
def kindsAndNames (statements : List Node) : List (Text × Option Text) :=
  statements.map fun node => (node.kind.word, node.name)

/-- A text is read as the exports and the generated statements, and the target has the members
that describe the exports in front of its own. -/
def ReadsBack (helpers generated : Document) (target t : Text) : Prop :=
  ∃ read, ofText 2 [] t = .ok read ∧
    kindsAndNames read.statements =
      kindsAndNames (helpers.exports ++ generated.statements) ∧
    ∀ position node, generated.targetIndex? target = some position →
      generated.statements[position]? = some node →
      read.statements[helpers.exports.length + position]?.map Node.childNames =
        some (node.withMembers
          (Node.describeAll helpers.exports helpers.index target)).childNames

/-- A line comment may hold what ends a block comment, and is written as one. -/
theorem exists_not_readsBack :
    ∃ helpers generated : Document, Configuration.standard.check = .ok () ∧
      ofText 0 Configuration.standard.handAuthored
        "// a */ b\nexport function f(): void;".toList = .ok helpers ∧
      ofText 1 Configuration.standard.generated
        "interface CustomEmbindModule \x7b\x7d".toList = .ok generated ∧
      ¬ ReadsBack helpers generated Configuration.standard.target
        (Merged.ofDocuments helpers generated .standard).text := by
  have hrejected : (Merged.ofTexts .standard "// a */ b\nexport function f(): void;".toList
      "interface CustomEmbindModule \x7b\x7d".toList).toOption.any
        (fun merged => (ofText 2 [] merged.text).toOption.isNone) = true := by decide +kernel
  cases hmerge : Merged.ofTexts .standard "// a */ b\nexport function f(): void;".toList
      "interface CustomEmbindModule \x7b\x7d".toList with
  | error failure =>
      rw [hmerge] at hrejected
      cases hrejected
  | ok merged =>
      obtain ⟨hcheck, helpers, generated, hhelpers, hgenerated, rfl⟩ :=
        Merged.ofTexts_eq_ok_iff.mp hmerge
      refine ⟨helpers, generated, hcheck, hhelpers, hgenerated, ?_⟩
      rintro ⟨read, hread, -⟩
      rw [hmerge] at hrejected
      simp [Except.toOption, hread] at hrejected

end Document

end Typings

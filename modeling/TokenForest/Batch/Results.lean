import TokenForest.Assembly.Origins
import TokenForest.Batch
import TokenForest.Forest.Equivalence

/-!
# Results of batches

What becomes of a position in the result of a batch, the checks that a result passes, and the decisions that a run name tells apart.
-/

namespace TokenForest

namespace Batch

/-! ## Accounts -/

/-- What becomes of a position with a decision. -/
inductive Accounted (batch : Batch) (p : Position) (d : Decision) : Prop where
  /-- The position is excluded: it has one entry for review and no terminal. -/
  | excluded (hstatus : d.status.isExcluded = true)
      (hentry : ∃ entry, batch.manualReview.filter (fun e => decide (e.position = p)) = [entry])
      (hterminal : batch.forest.terminalsAt p = [])
  /-- The symbol is admitted and stands in the forest: one terminal on one path, with the symbol and confidence decided on. -/
  | present (hstatus : d.status.isAdmitted = true) (hentry : ∀ e ∈ batch.manualReview, e.position ≠ p) {i : Nat}
      (hterminal : batch.forest.terminalsAt p = [i]) (hsymbol : (batch.forest.node i).info.symbol = d.symbol)
      (hpsi : (batch.forest.node i).info.confidence = d.finalPsi)
  /-- The symbol is admitted, but a node for it was left out at the gate and noted. -/
  | leftOut (hstatus : d.status.isAdmitted = true) (hentry : ∀ e ∈ batch.manualReview, e.position ≠ p)
      (hterminal : batch.forest.terminalsAt p = []) (hlost : ∃ m ∈ batch.mismatches, m.nodeId ∈ Assembly.namesAt p)

/-- The nodes and classes of a result pass the checks of those that are made by hand. -/
structure PassesChecks (batch : Batch) : Prop where
  nodes : batch.forest.Checked
  classes : ∀ m ∈ batch.merge, ∀ c ∈ m.classes, EquivalenceClass.make? c.representative c.members c.confidence = .ok c

/-! ## Run names -/

/-- What a run name is about: the position, its state and the final tag. -/
def outcome (d : Decision) : Position × Status × Option String := (d.position, d.status, d.symbol.map (·.typeTag))

/-- The decisions of a survey of an organized stream, whatever is in the table and whenever the deadline passes. -/
def Surveyed (decisions : List Decision) : Prop :=
  ∃ records staged source grid, Grid.organize records staged source = .ok grid ∧
    ∃ config grammar scorer deadline survey, (Survey.run ⟨grid, config, grammar, scorer⟩ deadline).Produces survey ∧
      survey.decisions = decisions

/-- How a part starts: the name of the position and the state. -/
def header (p : Position) (status : Status) : List Char := p.label.toList ++ ':' :: (status.name.toList ++ [':'])

/-- No final tag contains the start of a further part: the mark between parts, the name of a later position and a final state. -/
def Sealed (decisions : List Decision) : Prop :=
  ∀ d ∈ decisions, ∀ s, d.symbol = some s → ∀ q status, d.position.Before q → status.isAdmitted = true ∨ status.isExcluded = true →
    ¬('|' :: header q status) <:+: s.typeTag.toList

end Batch

end TokenForest

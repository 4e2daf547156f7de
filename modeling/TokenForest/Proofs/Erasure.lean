import TokenForest.Decision
import TokenForest.Intents
import TokenForest.Resolution

/-!
# Forgetting parts of symbols

No intent and no score reads the name of a symbol, and without staging none reads its stage, process and phase. An erasure forgets such
parts of symbols: what is left is the same for the intents of a row and for the score of a symbol in it, and symbols that are the same
after erasing are so under every other reading.
-/

namespace TokenForest

/-- A way to forget parts of symbols that neither intents nor the scores of other symbols read. -/
structure Forgetting where
  erase : Symbol → Symbol
  lexeme : ∀ s, (erase s).lexeme = s.lexeme
  typeTag : ∀ s, (erase s).typeTag = s.typeTag
  hint : ∀ s, (erase s).hint = s.hint

/-- A way to forget parts of symbols that neither intents nor scores read under a staging. -/
structure Erasure (staging : Staging) extends Forgetting where
  symbolClass : ∀ s, (erase s).symbolClass = s.symbolClass
  lexicalScore : ∀ s, (erase s).lexicalScore = s.lexicalScore
  stageBinding : ∀ s, Scoring.stageBinding (erase s) staging = Scoring.stageBinding s staging
  reread : ∀ {s t}, erase s = erase t → ∀ r, erase (Resolution.reread s r) = erase (Resolution.reread t r)

/-- A symbol without its name. -/
def Symbol.nameless (s : Symbol) : Symbol := { s with id := "" }

/-- A symbol without its stage, process and phase. -/
def Symbol.stageless (s : Symbol) : Symbol := { s with stage := none, process := none, phase := none }

namespace Forgetting

variable (e : Forgetting)

/-! ## Intents -/

theorem ofStatement_map (row : List Symbol) : Intents.ofStatement (row.map e.erase) = Intents.ofStatement row := by
  simp [Intents.ofStatement, List.any_map, Function.comp_def, e.hint]

theorem ofSymbol_map (grammar : Grammar) (left right : Option Symbol) (s : Symbol) (statement : Intent) :
    Intents.ofSymbol grammar (left.map e.erase) (e.erase s) (right.map e.erase) statement =
      Intents.ofSymbol grammar left s right statement := by
  cases left <;> cases right <;> simp [Intents.ofSymbol, e.hint, e.lexeme]

/-- Symbols have the same intents after erasing. -/
theorem classify_map (grammar : Grammar) (row : List Symbol) (index : Nat) :
    Intents.classify grammar (row.map e.erase) index = Intents.classify grammar row index := by
  have hleft : (if index = 0 then none else (row.map e.erase)[index - 1]?) =
      (if index = 0 then none else row[index - 1]?).map e.erase := by
    split <;> simp
  unfold Intents.classify
  rw [hleft, List.getElem?_map, List.getElem?_map, ofStatement_map]
  cases row[index]? with
  | none => rfl
  | some s => exact e.ofSymbol_map grammar _ _ s _

/-! ## Neighbours -/

theorem positional_map (s : Symbol) (left right : Option Symbol) (grammar : Grammar) :
    Scoring.positional (e.erase s) (left.map e.erase) (right.map e.erase) grammar = Scoring.positional s left right grammar := by
  have hprior : ∀ priors, Scoring.placePrior (e.erase s) (left.map e.erase) (right.map e.erase) grammar priors =
      Scoring.placePrior s left right grammar priors := by
    intro priors
    unfold Scoring.placePrior
    rw [e.hint, e.lexeme]
    cases left <;> cases right <;> rfl
  unfold Scoring.positional
  rw [e.hint]
  simp only [hprior]

theorem typeConsistency_map (s : Symbol) (left right : Option Symbol) :
    Scoring.typeConsistency (e.erase s) (left.map e.erase) (right.map e.erase) = Scoring.typeConsistency s left right := by
  unfold Scoring.typeConsistency
  rw [e.hint]
  cases left <;> cases right <;> simp only [Option.map_none, Option.map_some, e.hint]

end Forgetting

namespace Erasure

/-- Forgets nothing. -/
def nothing (staging : Staging) : Erasure staging where
  erase s := s
  symbolClass _ := rfl
  lexeme _ := rfl
  typeTag _ := rfl
  hint _ := rfl
  lexicalScore _ := rfl
  stageBinding _ := rfl
  reread h r := by rw [h]

/-- Forgets the names of symbols. -/
def names (staging : Staging) : Erasure staging where
  erase := Symbol.nameless
  symbolClass _ := rfl
  lexeme _ := rfl
  typeTag _ := rfl
  hint _ := rfl
  lexicalScore _ := rfl
  stageBinding _ := rfl
  reread {s t} h r := by
    simp only [Symbol.nameless, Symbol.mk.injEq] at h
    simp [Symbol.nameless, Resolution.reread, h]

/-- Forgets the stages, processes and phases of symbols, which bind nothing without staging. -/
def stages {staging : Staging} (hoff : staging.enabled = false) : Erasure staging where
  erase := Symbol.stageless
  symbolClass _ := rfl
  lexeme _ := rfl
  typeTag _ := rfl
  hint _ := rfl
  lexicalScore _ := rfl
  stageBinding _ := by simp [Scoring.stageBinding, hoff]
  reread {s t} h r := by
    simp only [Symbol.stageless, Symbol.mk.injEq] at h
    simp [Symbol.stageless, Resolution.reread, h]

variable {staging : Staging} (e : Erasure staging)

/-! ## Scores -/

theorem lexical_erase (s : Symbol) (grammar : Grammar) : Scoring.lexical (e.erase s) grammar = Scoring.lexical s grammar := by
  simp only [Scoring.lexical, e.symbolClass, e.typeTag, e.lexeme, e.lexicalScore]

/-- A symbol between its neighbours has the same score after erasing. -/
theorem componentsBetween_map (s : Symbol) (left right : Option Symbol) (grammar : Grammar) :
    Scoring.componentsBetween (e.erase s) (left.map e.erase) (right.map e.erase) staging grammar =
      Scoring.componentsBetween s left right staging grammar := by
  unfold Scoring.componentsBetween
  rw [e.lexical_erase, e.positional_map, e.typeConsistency_map, e.stageBinding]

end Erasure

/-! ## Decisions -/

/-- A decision after erasing its symbols. -/
def Decision.erase (f : Symbol → Symbol) (d : Decision) : Decision :=
  { d with
    original := f d.original
    symbol := d.symbol.map f
    coherent := by simpa [Decision.fault?] using d.coherent }

/-- A resolution after erasing the symbol that it chooses. -/
def Resolution.erase (f : Symbol → Symbol) (r : Resolution) : Resolution := { r with chosen := r.chosen.map (fun e => (f e.1, e.2)) }

/-- A passing reading after erasing its symbol. -/
def Passing.erase (f : Symbol → Symbol) (p : Passing) : Passing := { p with symbol := f p.symbol }

namespace Resolution

variable {f : Symbol → Symbol}

theorem preferred_erase (chosen next : Passing) : preferred (chosen.erase f) (next.erase f) = preferred chosen next := rfl

/-- The choice among passing readings does not read their symbols. -/
theorem choose_map (passing : List Passing) : choose (passing.map (Passing.erase f)) = (choose passing).map (Passing.erase f) := by
  cases passing with
  | nil => rfl
  | cons first rest =>
    simp only [choose, List.map_cons, Option.map_some]
    induction rest generalizing first with
    | nil => rfl
    | cons next rest ih =>
      rw [List.map_cons, List.foldl_cons, List.foldl_cons, preferred_erase]
      split
      · exact ih next
      · exact ih first

/-- A resolution that is made of erased readings is the erased resolution. -/
theorem ofTried_map (original : Breakdown) (intent : Intent) (tried : List (Candidate × Option Passing)) :
    ofTried original intent (tried.map (fun t => (t.1, t.2.map (Passing.erase f)))) = (ofTried original intent tried).erase f := by
  have hpassing : (tried.map (fun t => (t.1, t.2.map (Passing.erase f)))).filterMap (·.2) =
      (tried.filterMap (·.2)).map (Passing.erase f) := by
    rw [List.filterMap_map, List.map_filterMap]
    rfl
  unfold ofTried erase
  rw [hpassing, choose_map]
  simp [Function.comp_def, Passing.erase]

end Resolution

end TokenForest

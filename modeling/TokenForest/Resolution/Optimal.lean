import TokenForest.Resolution

/-!
# Optimal resolutions

The readings that may take the place of a symbol, their ranks, and what a resolution and its candidates are to them. A reading is
eligible in the place of a symbol when it is registered for the class of the symbol under another tag, fits the lexeme, reaches the
threshold of the intent that it has there and the minimums, and its intent goes with that of the symbol.
-/

namespace TokenForest

namespace Resolution

/-! ## Eligible readings -/

/-- A registered reading of the class of a symbol, under another tag, that fits its lexeme. -/
structure Fits (grammar : Grammar) (s : Symbol) (r : Reading) : Prop where
  registered : r ∈ grammar.readings
  symbolClass : r.symbolClass = s.symbolClass
  typeTag : r.typeTag ≠ s.typeTag
  lexeme : r.shape.fits s.lexeme = true

/-- A reading that may take the place of the symbol at a position with its confidence there. -/
structure Eligible (c : Context) (p : Position) (s : Symbol) (r : Reading) (b : Breakdown) : Prop where
  fits : Fits c.grammar s r
  scored : c.breakdown (s.retag r.typeTag r.hint) p = .ok b
  reached : c.config.threshold (c.intentAs p (s.retag r.typeTag r.hint)) ≤ b.psi
  minimums : b.components.reaches c.config.componentMinimums = true
  compatible : Intents.compatible c.grammar (c.intentAt p) (c.intentAs p (s.retag r.typeTag r.hint)) = true

/-- The confidence of the symbol at a position or of one of the readings that fit it. -/
inductive Scored (c : Context) (p : Position) (s : Symbol) : Binary64 → Prop where
  | original {b : Breakdown} (hb : c.breakdown s p = .ok b) : Scored c p s b.psi
  | reading {r : Reading} {b : Breakdown} (hr : Fits c.grammar s r) (hb : c.breakdown (s.retag r.typeTag r.hint) p = .ok b) :
      Scored c p s b.psi

/-! ## Ranks of readings -/

/-- The tag of a reading stands at the same lexeme in another lane. -/
def Attested (c : Context) (p : Position) (s : Symbol) (r : Reading) : Prop :=
  ∃ q ∈ (c.grid.neighborhood p).counterparts, ∃ t, c.grid.symbolAt? q = some t ∧ t.lexeme = s.lexeme ∧ t.typeTag = r.typeTag

/-- A reading comes before another one: attested readings first, then in the order of the registry. -/
def Earlier (c : Context) (p : Position) (s : Symbol) (r r' : Reading) : Prop :=
  Attested c p s r ∧ ¬Attested c p s r' ∨
    (Attested c p s r ↔ Attested c p s r') ∧ c.grammar.readings.idxOf r < c.grammar.readings.idxOf r'

/-- A reading with its confidence outranks another one: it is more confident, or as confident with more support among the vertical
neighbours, or with the same support and before it. -/
def Outranks (c : Context) (p : Position) (s : Symbol) (r : Reading) (b : Breakdown) (r' : Reading) (b' : Breakdown) : Prop :=
  b'.psi < b.psi ∨ b'.psi ≤ b.psi ∧
    (supportAt c p r' < supportAt c p r ∨ supportAt c p r' = supportAt c p r ∧ Earlier c p s r r')

/-! ## Optimal resolutions -/

/-- A resolution of the symbol at a position that chooses the eligible reading of the highest rank, and none when none is eligible. -/
structure Optimal (c : Context) (p : Position) (s : Symbol) (r : Resolution) : Prop where
  resolved_iff : r.status = .resolved ↔ ∃ reading b, Eligible c p s reading b
  chosen : ∀ t b, r.chosen = some (t, b) → ∃ reading, Eligible c p s reading b ∧
    t = { s with id := t.id, typeTag := reading.typeTag, hint := reading.hint } ∧
    ∀ other b', Eligible c p s other b' → other = reading ∨ Outranks c p s reading b other b'
  best : Scored c p s r.bestConfidence ∧ ∀ psi, Scored c p s psi → psi ≤ r.bestConfidence

/-! ## Candidates -/

/-- The candidate has the confidence of the symbol under the tag and the hint of a reading. -/
def OwnScore (c : Context) (p : Position) (s : Symbol) (reading : Reading) (candidate : Candidate) : Prop :=
  ∃ b, c.breakdown (s.retag reading.typeTag reading.hint) p = .ok b ∧ candidate.psi = b.psi

/-- What a candidate says of its reading. -/
structure StandsFor (c : Context) (p : Position) (s : Symbol) (reading : Reading) (candidate : Candidate) : Prop where
  typeTag : candidate.typeTag = reading.typeTag
  intent : candidate.intent = c.intentAs p (s.retag reading.typeTag reading.hint)
  threshold : candidate.threshold = c.config.threshold (c.intentAs p (s.retag reading.typeTag reading.hint))
  first : OwnScore c p s (standIn (c.readingsAt p s) reading) candidate
  own : (∀ r ∈ c.readingsAt p s, r.typeTag = reading.typeTag → r.hint = reading.hint) → OwnScore c p s reading candidate

end Resolution

end TokenForest

import TokenForest.Evaluation
import TokenForest.Intents

/-!
# Resolving a symbol

A symbol below its threshold is tried under every other registered reading of its class that fits the lexeme. Of the
readings that pass, the most confident one wins, then the one that more vertical neighbours share, then the earlier one;
readings that the other lanes attest come first.
-/

namespace TokenForest

/-- An alternative reading of a symbol as it was judged. -/
structure Candidate where
  typeTag : String
  psi : Binary64
  threshold : Binary64
  intent : Intent
  rejection : Option ReasonCode
  deriving DecidableEq

/-- An alternative that passed: the symbol it makes, its confidence, and how many vertical neighbours share its hint. -/
structure Passing where
  symbol : Symbol
  breakdown : Breakdown
  support : Nat
  deriving DecidableEq

/-- The outcome of resolving a symbol. It is resolved when a symbol is chosen, and left to a person otherwise. -/
structure Resolution where
  chosen : Option (Symbol × Breakdown)
  originalIntent : Intent
  bestConfidence : Binary64
  candidates : List Candidate
  reasonCodes : List ReasonCode
  deriving DecidableEq

namespace Resolution

/-- The state that the outcome gives a position. -/
def status (r : Resolution) : Status := if r.chosen.isSome then .resolved else .manualReview

/-- The tag of a symbol with the lexeme. -/
def tagOf? (lexeme : String) (s : Symbol) : Option String := if s.lexeme = lexeme then some s.typeTag else none

/-- The tags that the same lexeme has in the cells of other lanes of the neighbourhood. -/
def attestedTags? (grid : Grid) (n : Grid.Neighborhood) (lexeme : String) : Except Fault (List String) := do
  return (← grid.symbolsAt n.counterparts).filterMap (tagOf? lexeme)

/-- The other readings of a symbol that fit its lexeme, those with an attested tag first. -/
def arranged (grammar : Grammar) (s : Symbol) (attested : List String) : List Reading :=
  let fitting := (grammar.readingsOf s.symbolClass).filter
    (fun r => decide (r.typeTag ≠ s.typeTag) && r.shape.fits s.lexeme)
  fitting.filter (fun r => attested.contains r.typeTag) ++ fitting.filter (fun r => !attested.contains r.typeTag)

/-- The symbol under another reading. -/
def reread (s : Symbol) (r : Reading) : Symbol :=
  { s with id := s!"{s.id}~{r.typeTag}", typeTag := r.typeTag, hint := r.hint }

/-- The number of vertical neighbours whose cells have a hint. -/
def supportOf? (grid : Grid) (n : Grid.Neighborhood) (hint : Hint) : Except Fault Nat := do
  return (← grid.symbolsAt n.vertical).countP (fun s => decide (s.hint = hint))

/-- Why a reading with this confidence and intent is refused. -/
def rejection? (config : Config) (grammar : Grammar) (original intent : Intent) (b : Breakdown) : Option ReasonCode :=
  if b.psi < config.threshold intent then some .belowThreshold
  else if !b.components.reaches config.componentMinimums then some .componentMinimum
  else if !Intents.compatible grammar original intent then some .intentChanged
  else none

/-- A reading tried in place of the symbol at an index of its row. -/
def tryReading (c : Context) (n : Grid.Neighborhood) (row : List Symbol) (index : Nat) (original : Intent) (s : Symbol)
    (r : Reading) : Evaluating (Candidate × Option Passing) := do
  let alternative ← Evaluating.lift ((reread s r).check.mapError .symbol)
  let b ← c.evaluate alternative n.position
  let intent ← Evaluating.lift (Intents.classify? c.grammar (row.set index alternative) index)
  let rejection := rejection? c.config c.grammar original intent b
  let candidate : Candidate := ⟨r.typeTag, b.psi, c.config.threshold intent, intent, rejection⟩
  match rejection with
  | some _ => return (candidate, none)
  | none => return (candidate, some ⟨alternative, b, ← Evaluating.lift (supportOf? c.grid n r.hint)⟩)

/-- The passing alternative is to be preferred to the one chosen so far. -/
def preferred (chosen next : Passing) : Bool :=
  decide (chosen.breakdown.psi < next.breakdown.psi)
    || (!decide (next.breakdown.psi < chosen.breakdown.psi) && decide (chosen.support < next.support))

/-- The best of the passing alternatives, the earlier one on a tie. -/
def choose : List Passing → Option Passing
  | [] => none
  | first :: rest => some (rest.foldl (fun chosen next => if preferred chosen next then next else chosen) first)

/-- The reasons of the candidates, each once, in the order of their names. -/
def reasons (candidates : List Candidate) : List ReasonCode :=
  if candidates.isEmpty then [.noAlternative]
  else [ReasonCode.belowThreshold, .componentMinimum, .intentChanged].filter
    (fun code => candidates.any (fun c => decide (c.rejection = some code)))

/-- The outcome of judging all candidates of a symbol with a given confidence. -/
def ofTried (original : Breakdown) (intent : Intent) (tried : List (Candidate × Option Passing)) : Resolution :=
  let candidates := tried.map (·.1)
  let best := candidates.foldl (fun best c => Binary64.max best c.psi) original.psi
  let chosen := choose (tried.filterMap (·.2))
  { chosen := chosen.map (fun p => (p.symbol, p.breakdown))
    originalIntent := intent
    bestConfidence := best.roundSix
    candidates := candidates
    reasonCodes := if chosen.isSome then [] else reasons candidates }

/-- Resolves the symbol at a position. -/
def resolve (c : Context) (p : Position) : Evaluating Resolution := do
  let s ← Evaluating.lift (c.symbolAt p)
  let n := c.grid.neighborhood p
  let row ← Evaluating.lift (c.grid.symbolsAt n.row)
  let index ← Evaluating.lift (Grid.placeIn n.row p)
  let intent ← Evaluating.lift (Intents.classify? c.grammar row index)
  let original ← c.evaluate s p
  let attested ← Evaluating.lift (attestedTags? c.grid n s.lexeme)
  let tried ← (arranged c.grammar s attested).mapM (tryReading c n row index intent s)
  return ofTried original intent tried

end Resolution

/-! ## What a neighbourhood says

Every position of a neighbourhood is occupied, and a position with a symbol is in its row: so reading a neighbourhood comes to
the following.
-/

namespace Context

/-- The symbols of the row of a position. -/
def rowAt (c : Context) (p : Position) : List Symbol := (c.grid.neighborhood p).row.filterMap c.grid.symbolAt?

/-- The index of a position in its row. -/
def indexAt (c : Context) (p : Position) : Nat := (c.grid.neighborhood p).row.idxOf p

/-- The intent of the symbol at a position. -/
def intentAt (c : Context) (p : Position) : Intent := Intents.classify c.grammar (c.rowAt p) (c.indexAt p)

end Context

namespace Resolution

/-- The tags that the same lexeme has in other lanes of the neighbourhood. -/
def attestedTags (grid : Grid) (n : Grid.Neighborhood) (lexeme : String) : List String :=
  n.counterparts.filterMap fun p => (grid.symbolAt? p).bind (tagOf? lexeme)

/-- The number of vertical neighbours with a hint. -/
def supportOf (grid : Grid) (n : Grid.Neighborhood) (hint : Hint) : Nat :=
  n.vertical.countP (fun p => (grid.symbolAt? p).any (fun s => decide (s.hint = hint)))

/-- The other readings of a symbol that fit its lexeme, those with an attested tag first. -/
def alternatives (grammar : Grammar) (grid : Grid) (n : Grid.Neighborhood) (s : Symbol) : List Reading :=
  arranged grammar s (attestedTags grid n s.lexeme)

/-! ## Readings and their places -/

/-- The first of some readings with the tag of a reading: the one that is evaluated in place of those behind it. -/
def standIn (readings : List Reading) (r : Reading) : Reading :=
  (readings.find? (fun r' => decide (r'.typeTag = r.typeTag))).getD r

/-- How many vertical neighbours of a position have the hint of a reading. -/
def supportAt (c : Context) (p : Position) (reading : Reading) : Nat := supportOf c.grid (c.grid.neighborhood p) reading.hint

end Resolution

namespace Context

open Resolution

/-- The readings that are tried in place of the symbol at a position. -/
def readingsAt (c : Context) (p : Position) (s : Symbol) : List Reading :=
  alternatives c.grammar c.grid (c.grid.neighborhood p) s

/-- The intent of a symbol in the place of the one at a position, among the others of the recorded row. -/
def intentAs (c : Context) (p : Position) (s : Symbol) : Intent :=
  Intents.classify c.grammar ((c.rowAt p).set (c.indexAt p) s) (c.indexAt p)

/-- The fault of a reading whose hint is not on the list: no symbol can be read that way. -/
def Misread (c : Context) (fault : Fault) : Prop :=
  ∃ r ∈ c.grammar.readings, r.hint.isKnown = false ∧ fault = .symbol (.unknownHint r.hint.name)

end Context

end TokenForest

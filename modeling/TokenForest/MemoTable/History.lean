import Mathlib.Data.Finset.Card
import TokenForest.MemoTable

/-!
# Histories of tables

The steps that are taken on a table with their answers, and what a table makes of the steps that led to it.
-/

namespace TokenForest

namespace MemoTable

variable {κ ν ε : Type} [DecidableEq κ]

/-- A step on a table. -/
inductive Step (κ ν ε : Type) where
  | get (key : κ) (compute : Unit → Except ε ν)
  | clear
  | size

/-- What a step answers. -/
inductive Answer (ν ε : Type) where
  | got (result : Except ε ν)
  | cleared
  | counted (n : Nat)

/-- A step that was taken, with its answer. -/
structure Event (κ ν ε : Type) where
  step : Step κ ν ε
  answer : Answer ν ε

/-- A get that came back: its key, what its computation comes to, whether or not it was run, and the value it came back with. -/
structure Return (κ ν ε : Type) where
  key : κ
  computed : Except ε ν
  value : ν

namespace Event

/-- The get that came back in an event. -/
def return? : Event κ ν ε → Option (Return κ ν ε)
  | ⟨.get key compute, .got (.ok v)⟩ => some ⟨key, compute (), v⟩
  | _ => none

/-- The table is cleared. -/
def isClear : Event κ ν ε → Bool
  | ⟨.clear, _⟩ => true
  | _ => false

end Event

/-- The gets that came back, in order. -/
def returns (events : List (Event κ ν ε)) : List (Return κ ν ε) := events.filterMap Event.return?

/-- The events since the table was cleared last. -/
def sinceClear (events : List (Event κ ν ε)) : List (Event κ ν ε) := (events.reverse.takeWhile (fun e => !e.isClear)).reverse

/-- The answer of a table to a step, and the table after it. -/
def take (isNull : ν → Bool) (t : MemoTable κ ν) : Step κ ν ε → Answer ν ε × MemoTable κ ν
  | .get key compute => (.got (t.memoize isNull key compute).1, (t.memoize isNull key compute).2)
  | .clear => (.cleared, t.clear)
  | .size => (.counted t.size, t)

/-- The events of some steps from the empty table on, and the table that they leave. -/
def run (isNull : ν → Bool) (steps : List (Step κ ν ε)) : List (Event κ ν ε) × MemoTable κ ν :=
  steps.foldl (fun state s => (state.1 ++ [⟨s, (take isNull state.2 s).1⟩], (take isNull state.2 s).2)) ([], empty)

/-- The first get of a key among those that came back. -/
def firstOf? (key : κ) (rs : List (Return κ ν ε)) : Option (Return κ ν ε) := rs.find? (fun r => decide (r.key = key))

/-- A value that is not null is stored under the key. -/
def Holds (isNull : ν → Bool) (t : MemoTable κ ν) (key : κ) : Prop := ∃ v, t.get? key = some v ∧ isNull v = false

/-- Every get that came back did so with what the first get of its key, since the table was cleared, computed. -/
def Faithful (past : List (Event κ ν ε)) : Prop := ∀ before e r, before ++ [e] <+: past → e.return? = some r →
  ∃ first, firstOf? r.key (returns (sinceClear (before ++ [e]))) = some first ∧ first.computed = .ok r.value

/-- What a table makes of the steps that led to it, and of the next get. -/
structure Lawful (isNull : ν → Bool) (past : List (Event κ ν ε)) (t : MemoTable κ ν) : Prop where
  /-- A get that comes back gives what the first get of its key, since the table was cleared, computed. -/
  faithful : Faithful past
  /-- A value is stored when the first get of its key, since the table was cleared, computed it. -/
  stored : ∀ key v, t.get? key = some v ↔
    ∃ first, firstOf? key (returns (sinceClear past)) = some first ∧ first.computed = .ok v
  counters : t.hits + t.misses = (returns past).length
  hit : ∀ key (compute : Unit → Except ε ν), (t.memoize isNull key compute).2.hits = t.hits + 1 ↔ Holds isNull t key
  size : take isNull t (.size : Step κ ν ε) = (.counted ((returns (sinceClear past)).map (·.key)).toFinset.card, t)
  /-- A get fails when its computation is run and fails. -/
  fails : ∀ key (compute : Unit → Except ε ν) fault, (t.memoize isNull key compute).1 = .error fault ↔
    ¬Holds isNull t key ∧ compute () = .error fault
  /-- A get that fails leaves contents and counters as they were. -/
  failed : ∀ key (compute : Unit → Except ε ν) fault, (t.memoize isNull key compute).1 = .error fault →
    (t.memoize isNull key compute).2 = t

end MemoTable

end TokenForest

/-!
# Memo tables

A table of values already computed, with counters of the answers it gave. A stored null does not count as an answer: it is
computed again, and the stored value stays.
-/

namespace TokenForest

/-- Stored values by key, in order of storing, with the number of hits and misses so far. -/
structure MemoTable (κ ν : Type) where
  entries : List (κ × ν)
  hits : Nat
  misses : Nat

namespace MemoTable

variable {κ ν ε : Type} [DecidableEq κ]

/-- The empty table. -/
def empty : MemoTable κ ν := ⟨[], 0, 0⟩

/-- The stored value of a key. -/
def get? (t : MemoTable κ ν) (key : κ) : Option ν := t.entries.lookup key

/-- The number of stored keys. -/
def size (t : MemoTable κ ν) : Nat := t.entries.length

/-- The table with the value stored, unless the key has a value already. -/
def store (t : MemoTable κ ν) (key : κ) (value : ν) : MemoTable κ ν :=
  match t.get? key with
  | some _ => t
  | none => { t with entries := t.entries ++ [(key, value)] }

/-- The stored value of a key when there is one that is not null. -/
def answer? (t : MemoTable κ ν) (isNull : ν → Bool) (key : κ) : Option ν :=
  (t.get? key).filter (fun v => !isNull v)

/-- The value of a key: the stored one, or else the computed one, which is then stored. A computation that fails leaves
the table as it was. -/
def memoize (t : MemoTable κ ν) (isNull : ν → Bool) (key : κ) (compute : Unit → Except ε ν) :
    Except ε ν × MemoTable κ ν :=
  match t.answer? isNull key with
  | some value => (.ok value, { t with hits := t.hits + 1 })
  | none =>
    match compute () with
    | .error fault => (.error fault, t)
    | .ok value =>
      (.ok ((t.get? key).getD value), { t.store key value with misses := t.misses + 1 })

/-- The table without its values; the counters go on. -/
def clear (t : MemoTable κ ν) : MemoTable κ ν := { t with entries := [] }

end MemoTable

end TokenForest

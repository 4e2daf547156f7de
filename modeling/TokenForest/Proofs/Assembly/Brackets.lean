import Mathlib.Data.List.Nodup
import Mathlib.Data.List.Perm.Basic
import TokenForest.Assembly
import TokenForest.Assembly.Brackets

/-!
# Block brackets

The block brackets of the rows of a lane, matched with one stack and without any tree: a row may begin with a closer, which meets
the innermost opener that waits, and may end with an opener, which waits from then on. An opener whose block or statement was left
out does not wait; the notes on the assembly say which openers those are.
-/

namespace TokenForest

namespace Assembly

variable {grammar : Grammar} {refused : Position → Bool} {items : List Admitted}

namespace Brackets

/-- The openers of blocks so far. -/
def openers (b : Brackets) : List Position := b.waiting ++ b.pairs.map (·.1)

/-- The closers of blocks so far. -/
def closers (b : Brackets) : List Position := b.pairs.map (·.2)

/-! ## A closer at the start of a row -/

variable {b : Brackets} {first : Admitted} {rest : List Admitted}

theorem close_of_not_closes (h : grammar.closesBlock first.symbol.lexeme = false) :
    b.close grammar (first :: rest) = (b, first :: rest) := by
  simp [close, h]

theorem close_of_waiting_nil (h : grammar.closesBlock first.symbol.lexeme = true) (hwaiting : b.waiting = []) :
    b.close grammar (first :: rest) = ({ b with strays := b.strays ++ [first.position] }, first :: rest) := by
  obtain ⟨waiting, pairs, strays⟩ := b
  subst hwaiting
  simp [close, h]

theorem close_of_waiting_cons (h : grammar.closesBlock first.symbol.lexeme = true) {p : Position} {outer : List Position}
    (hwaiting : b.waiting = p :: outer) : b.close grammar (first :: rest) =
      ({ b with waiting := outer, pairs := b.pairs ++ [(p, first.position)] }, rest) := by
  obtain ⟨waiting, pairs, strays⟩ := b
  subst hwaiting
  simp [close, h]

/-! ## Refused openers -/

variable {refused' : Position → Bool} {opener : Option Position} {rows : List (Nat × List Admitted)}

/-- A refused opener does not wait. -/
theorem await_of_refused (h : ∀ p ∈ opener, refused p = true) : b.await refused opener = b := by
  unfold await
  cases opener with
  | none => rfl
  | some p =>
    rw [Option.filter_some, h p rfl]
    rfl

theorem await_congr (h : ∀ p ∈ opener, refused p = refused' p) : b.await refused opener = b.await refused' opener := by
  unfold await
  cases opener with
  | none => rfl
  | some p => rw [Option.filter_some, Option.filter_some, h p rfl]

theorem addRows_cons (entry : Nat × List Admitted) :
    b.addRows grammar refused (entry :: rows) = (b.addRow grammar refused entry.2).addRows grammar refused rows := rfl

/-! ## Every bracket is used once -/

theorem close_perm (b : Brackets) (items : List Admitted) :
    ∃ taken : List Admitted, items = taken ++ (b.close grammar items).2 ∧
      ((b.close grammar items).1.openers ++ (b.close grammar items).1.closers).Perm
        (b.openers ++ b.closers ++ taken.map (·.position)) := by
  unfold close
  split
  · exact ⟨[], rfl, by simp⟩
  · rename_i first rest
    split
    · split
      · exact ⟨[], rfl, by simp [openers, closers]⟩
      · rename_i p outer hwaiting
        refine ⟨[first], rfl, ?_⟩
        simp only [openers, closers, hwaiting, List.map_append, List.map_cons, List.map_nil, List.cons_append,
          List.append_assoc, List.nil_append]
        -- the opener moves from those that wait to those that have met their closers
        exact (List.Perm.append_left _ List.perm_middle).trans List.perm_middle
    · exact ⟨[], rfl, by simp⟩

/-- The opener of some symbols is the position of one of them. -/
theorem mem_of_opener? {p : Position} (h : opener? grammar items = some p) : ∃ item ∈ items, item.position = p := by
  unfold opener? at h
  obtain ⟨item, hitem, rfl⟩ := Option.map_eq_some_iff.1 h
  exact ⟨item, List.mem_of_getLast? (Option.filter_eq_some_iff.1 hitem).1, rfl⟩

/-- Only the openers of a row matter. -/
theorem addRow_congr (h : ∀ item ∈ items, refused item.position = refused' item.position) :
    b.addRow grammar refused items = b.addRow grammar refused' items := by
  obtain ⟨taken, htaken, _⟩ : ∃ taken : List Admitted, items = taken ++ (b.close grammar items).2 ∧ _ := close_perm b items
  unfold addRow
  apply await_congr
  intro p hp
  obtain ⟨item, hitem, rfl⟩ := mem_of_opener? hp
  apply h
  rw [htaken]
  exact List.mem_append_right _ hitem

theorem addRows_congr (h : ∀ item ∈ rows.flatMap (·.2), refused item.position = refused' item.position) :
    b.addRows grammar refused rows = b.addRows grammar refused' rows := by
  induction rows generalizing b with
  | nil => rfl
  | cons entry rows ih =>
    have hrow : b.addRow grammar refused entry.2 = b.addRow grammar refused' entry.2 := by
      apply addRow_congr
      intro item hitem
      exact h item (List.mem_flatMap.2 ⟨entry, by simp, hitem⟩)
    rw [addRows_cons, addRows_cons, hrow]
    apply ih
    intro item hitem
    exact h item (by rw [List.flatMap_cons]; exact List.mem_append_right _ hitem)

theorem await_perm (b : Brackets) (items : List Admitted) :
    ∃ rest, ((b.await refused (opener? grammar items)).openers ++ (b.await refused (opener? grammar items)).closers ++ rest).Perm
      (b.openers ++ b.closers ++ items.map (·.position)) := by
  cases hopener : (opener? grammar items).filter (fun p => !refused p) with
  | none => exact ⟨items.map (·.position), by simp [await, hopener, openers, closers]⟩
  | some p =>
    -- an opener that waits is the last symbol
    have hlast : ∃ item ∈ items.getLast?, item.position = p := by
      obtain ⟨hp, _⟩ := Option.filter_eq_some_iff.1 hopener
      obtain ⟨item, hitem, rfl⟩ := Option.map_eq_some_iff.1 hp
      exact ⟨item, (Option.filter_eq_some_iff.1 hitem).1, rfl⟩
    obtain ⟨item, hitem, rfl⟩ := hlast
    refine ⟨items.dropLast.map (·.position), ?_⟩
    have hsplit : items = items.dropLast ++ [item] := (List.dropLast_append_getLast? item hitem).symm
    have hpositions : items.map (·.position) = items.dropLast.map (·.position) ++ [item.position] := by
      rw [← List.map_singleton, ← List.map_append, ← hsplit]
    have hawait : b.await refused (opener? grammar items) = { b with waiting := item.position :: b.waiting } := by
      rw [await, hopener]
      rfl
    rw [hawait, hpositions]
    change (item.position :: (b.openers ++ b.closers ++ items.dropLast.map (·.position))).Perm _
    rw [← List.append_assoc]
    exact (List.perm_append_singleton item.position _).symm

/-- Every opener and closer of a block is the position of a symbol, and no symbol is used twice. -/
theorem addRow_perm (b : Brackets) (items : List Admitted) :
    ∃ rest, ((b.addRow grammar refused items).openers ++ (b.addRow grammar refused items).closers ++ rest).Perm
      (b.openers ++ b.closers ++ items.map (·.position)) := by
  obtain ⟨taken, htaken, hclose⟩ : ∃ taken : List Admitted, items = taken ++ (b.close grammar items).2 ∧ _ := close_perm b items
  obtain ⟨rest, hawait⟩ := await_perm (b.close grammar items).1 (b.close grammar items).2
  refine ⟨rest, hawait.trans ?_⟩
  have hpositions : items.map (·.position) = taken.map (·.position) ++ (b.close grammar items).2.map (·.position) := by
    rw [← List.map_append, ← htaken]
  rw [hpositions, ← List.append_assoc]
  exact hclose.append_right _

theorem addRows_perm (b : Brackets) (rows : List (Nat × List Admitted)) :
    ∃ rest, ((b.addRows grammar refused rows).openers ++ (b.addRows grammar refused rows).closers ++ rest).Perm
      (b.openers ++ b.closers ++ (rows.flatMap (·.2)).map (·.position)) := by
  induction rows generalizing b with
  | nil => exact ⟨[], by simp [addRows]⟩
  | cons entry rows ih =>
    obtain ⟨left, hleft⟩ : ∃ left, ((b.addRow grammar refused entry.2).openers ++ (b.addRow grammar refused entry.2).closers ++
      left).Perm _ := addRow_perm b entry.2
    obtain ⟨rest, hrest⟩ := ih (b.addRow grammar refused entry.2)
    refine ⟨rest ++ left, ?_⟩
    have hswap : ∀ used more : List Position, (used ++ more ++ left).Perm (used ++ left ++ more) := by
      intro used more
      rw [List.append_assoc, List.append_assoc]
      exact List.Perm.append_left used List.perm_append_comm
    rw [List.flatMap_cons, List.map_append]
    have hfirst := (hrest.append_right left).trans ((hswap _ _).trans (hleft.append_right _))
    rw [List.append_assoc, List.append_assoc _ (entry.2.map _)] at hfirst
    exact hfirst

/-- No symbol opens or closes two blocks, and none does both. -/
theorem nodup_ofRows {rows : List (Nat × List Admitted)} (h : ((rows.flatMap (·.2)).map (·.position)).Nodup) :
    ((ofRows grammar refused rows).openers ++ (ofRows grammar refused rows).closers).Nodup := by
  obtain ⟨rest, hrest⟩ : ∃ rest, ((ofRows grammar refused rows).openers ++ (ofRows grammar refused rows).closers ++ rest).Perm
    _ := addRows_perm empty rows
  exact (hrest.nodup_iff.2 h).of_append_left

/-- Openers and closers are positions of symbols. -/
theorem mem_of_mem_ofRows {rows : List (Nat × List Admitted)} {p : Position}
    (h : p ∈ (ofRows grammar refused rows).openers ++ (ofRows grammar refused rows).closers) :
    p ∈ (rows.flatMap (·.2)).map (·.position) := by
  obtain ⟨rest, hrest⟩ : ∃ rest, ((ofRows grammar refused rows).openers ++ (ofRows grammar refused rows).closers ++ rest).Perm
    _ := addRows_perm empty rows
  exact hrest.mem_iff.1 (List.mem_append_left _ h)

end Brackets

end Assembly

end TokenForest

import TokenForest.Resolution

/-!
# Symbols under other readings

A symbol that passes its checks passes them under another reading whose hint is on the list. The name of a reading is that of the symbol
with the tag of the reading behind it, so readings of a symbol are told apart by their tags.
-/

namespace TokenForest

/-! ## Checks -/

/-- What the checks of a symbol ask for. -/
theorem Symbol.fault?_eq_none_iff {s : Symbol} : s.fault? = none ↔
    s.id ≠ "" ∧ s.symbolClass.isKnown = true ∧ s.hint.isKnown = true ∧ s.lexeme ≠ "" ∧ s.lexicalScore.inUnit = true := by
  unfold fault?
  generalize s.lexicalScore.inUnit = inRange
  constructor
  · intro h
    split at h
    · cases h
    · rename_i hid
      split at h
      · cases h
      · rename_i hclass
        split at h
        · cases h
        · rename_i hhint
          split at h
          · cases h
          · rename_i hlexeme
            split at h
            · cases h
            · rename_i hrange
              exact ⟨hid, by simpa using hclass, by simpa using hhint, hlexeme, by simpa using hrange⟩
  · rintro ⟨hid, hclass, hhint, hlexeme, rfl⟩
    simp [hid, hclass, hhint, hlexeme]

theorem Symbol.isKnown_of_fault? {s : Symbol} (h : s.fault? = none) : s.hint.isKnown = true := (fault?_eq_none_iff.1 h).2.2.1

/-- Of the name of a symbol the checks read only that it is there. -/
theorem Symbol.fault?_congr {s t : Symbol} (hs : s.id ≠ "") (ht : t.id ≠ "") (hclass : s.symbolClass = t.symbolClass)
    (hhint : s.hint = t.hint) (hlexeme : s.lexeme = t.lexeme) (hscore : s.lexicalScore = t.lexicalScore) : s.fault? = t.fault? := by
  obtain ⟨id, symbolClass, lexeme, typeTag, hint, lexicalScore, stage, process, phase⟩ := s
  obtain rfl : symbolClass = t.symbolClass := hclass
  obtain rfl : hint = t.hint := hhint
  obtain rfl : lexeme = t.lexeme := hlexeme
  obtain rfl : lexicalScore = t.lexicalScore := hscore
  unfold fault?
  rw [if_neg hs, if_neg ht]

/-- A symbol that passes its checks is checked, and nothing else is. -/
theorem Symbol.check_eq_ok_iff {s checked : Symbol} : s.check = .ok checked ↔ s.fault? = none ∧ checked = s := by
  unfold check
  split
  · rename_i hfault
    simp [hfault]
  · rename_i hnone
    simp [hnone, eq_comm]

/-- Checking does not change a symbol. -/
theorem Symbol.eq_of_check {s checked : Symbol} (h : s.check = .ok checked) : checked = s := (check_eq_ok_iff.1 h).2

namespace Resolution

variable {s : Symbol} {r r' : Reading}

/-! ## Names -/

theorem id_reread (s : Symbol) (r : Reading) : (reread s r).id = s.id ++ "~" ++ r.typeTag := rfl

theorem length_id_reread (s : Symbol) (r : Reading) : s.id.length < (reread s r).id.length := by
  have hone : "~".length = 1 := rfl
  rw [id_reread, String.length_append, String.length_append]
  omega

theorem id_reread_ne (s : Symbol) (r : Reading) : (reread s r).id ≠ "" := by
  intro h
  have hlength := length_id_reread s r
  rw [h] at hlength
  exact absurd hlength (Nat.not_lt_zero _)

/-- A reading does not have the name of the symbol itself. -/
theorem id_reread_ne_id (s : Symbol) (r : Reading) : (reread s r).id ≠ s.id := by
  intro h
  have hlength := length_id_reread s r
  rw [h] at hlength
  exact absurd hlength (Nat.lt_irrefl _)

/-- Readings are told apart by their tags. -/
theorem id_reread_eq_iff : (reread s r).id = (reread s r').id ↔ r.typeTag = r'.typeTag := by
  rw [id_reread, id_reread]
  constructor
  · intro h
    have hlist := congrArg String.toList h
    simpa [String.toList_inj] using hlist
  · intro h
    rw [h]

/-! ## Registered readings -/

/-- A symbol that passes its checks passes them under another reading, unless the hint of the reading is not on the list. -/
theorem check_reread (hs : s.fault? = none) (r : Reading) :
    (reread s r).check = if r.hint.isKnown then .ok (reread s r) else .error (.unknownHint r.hint.name) := by
  obtain ⟨_, hclass, _, hlexeme, hrange⟩ := Symbol.fault?_eq_none_iff.1 hs
  cases hhint : r.hint.isKnown with
  | true =>
    have hfault : (reread s r).fault? = none := Symbol.fault?_eq_none_iff.2 ⟨id_reread_ne s r, hclass, hhint, hlexeme, hrange⟩
    unfold Symbol.check
    rw [hfault]
    rfl
  | false =>
    have hknown : ¬(!(reread s r).symbolClass.isKnown) = true := by
      change ¬(!s.symbolClass.isKnown) = true
      simp [hclass]
    have hunknown : (!(reread s r).hint.isKnown) = true := by
      change (!r.hint.isKnown) = true
      simp [hhint]
    have hfault : (reread s r).fault? = some (.unknownHint r.hint.name) := by
      unfold Symbol.fault?
      rw [if_neg (id_reread_ne s r), if_neg hknown, if_pos hunknown]
      rfl
    unfold Symbol.check
    rw [hfault]
    rfl

theorem mem_readings_of_mem_alternatives {grammar : Grammar} {grid : Grid} {n : Grid.Neighborhood}
    (h : r ∈ alternatives grammar grid n s) : r ∈ grammar.readings := by
  have hof : r ∈ grammar.readingsOf s.symbolClass := by
    unfold alternatives arranged at h
    rcases List.mem_append.1 h with h | h
    · exact (List.mem_filter.1 (List.mem_filter.1 h).1).1
    · exact (List.mem_filter.1 (List.mem_filter.1 h).1).1
  exact (List.mem_filter.1 hof).1

end Resolution

end TokenForest

import Mathlib.Data.Finset.Card
import TokenForest.MemoTable.History
import TokenForest.Proofs.MemoTable

/-!
# Histories of a table

Any gets, clearings and sizes, one after the other from the empty table on. Between two clearings every get of a key comes back with
what the first of them computed, also where that is null and the key is computed over and over; a get that fails leaves no trace.
-/

namespace TokenForest

namespace MemoTable

/-! ## Steps and events -/

variable {κ ν ε : Type} {past : List (Event κ ν ε)}

theorem returns_concat (e : Event κ ν ε) : returns (past ++ [e]) = returns past ++ e.return?.toList := by
  rw [returns, List.filterMap_append]
  cases h : e.return? <;> simp [h, returns]

theorem sinceClear_concat (e : Event κ ν ε) : sinceClear (past ++ [e]) = if e.isClear then [] else sinceClear past ++ [e] := by
  unfold sinceClear
  rw [List.reverse_concat, List.takeWhile_cons]
  cases e.isClear <;> simp

/-- An event that does not clear the table adds what came back in it. -/
theorem returns_sinceClear_concat {e : Event κ ν ε} (h : e.isClear = false) :
    returns (sinceClear (past ++ [e])) = returns (sinceClear past) ++ e.return?.toList := by
  rw [sinceClear_concat, h, if_neg Bool.false_ne_true, returns_concat]

/-- A get that comes back does so among the others. -/
theorem returns_got (past : List (Event κ ν ε)) (key : κ) (compute : Unit → Except ε ν) (v : ν) :
    returns (past ++ [⟨.get key compute, .got (.ok v)⟩]) = returns past ++ [⟨key, compute (), v⟩] := returns_concat _

theorem returns_sinceClear_got (past : List (Event κ ν ε)) (key : κ) (compute : Unit → Except ε ν) (v : ν) :
    returns (sinceClear (past ++ [⟨.get key compute, .got (.ok v)⟩])) = returns (sinceClear past) ++ [⟨key, compute (), v⟩] :=
  returns_sinceClear_concat rfl

variable [DecidableEq κ] {isNull : ν → Bool} {t t' : MemoTable κ ν} {key : κ} {v : ν} {compute : Unit → Except ε ν}

theorem firstOf?_append (rs rs' : List (Return κ ν ε)) : firstOf? key (rs ++ rs') = (firstOf? key rs).or (firstOf? key rs') :=
  List.find?_append

theorem firstOf?_singleton (r : Return κ ν ε) : firstOf? key [r] = if r.key = key then some r else none := by
  by_cases h : r.key = key <;> simp [firstOf?, h]

theorem isSome_firstOf? {rs : List (Return κ ν ε)} : (firstOf? key rs).isSome = true ↔ key ∈ rs.map (·.key) := by
  rw [firstOf?, List.find?_isSome]
  simp

/-! ## One get more -/

theorem not_holds_of_null (hget : t.get? key = some v) (hnull : isNull v = true) : ¬Holds isNull t key := by
  rintro ⟨w, hw, hvalue⟩
  rw [hget, Option.some.injEq] at hw
  rw [← hw, hnull] at hvalue
  cases hvalue

theorem not_holds_of_fresh (hget : t.get? key = none) : ¬Holds isNull t key := by
  rintro ⟨w, hw, _⟩
  rw [hget] at hw
  cases hw

/-- All that a get can come to: it finds a value, or a null that it computes again and that stays, or it stores what it computes,
or its computation fails. -/
inductive Get (isNull : ν → Bool) (t : MemoTable κ ν) (key : κ) (compute : Unit → Except ε ν) : Except ε ν × MemoTable κ ν → Prop where
  | hit (v : ν) (hget : t.get? key = some v) (hnull : isNull v = false) :
    Get isNull t key compute (.ok v, { t with hits := t.hits + 1 })
  | null (v w : ν) (hget : t.get? key = some v) (hnull : isNull v = true) (hcompute : compute () = .ok w) :
    Get isNull t key compute (.ok v, { t with misses := t.misses + 1 })
  | fresh (w : ν) (hget : t.get? key = none) (hcompute : compute () = .ok w) :
    Get isNull t key compute (.ok w, { t with entries := t.entries ++ [(key, w)], misses := t.misses + 1 })
  | failed (fault : ε) (hholds : ¬Holds isNull t key) (hcompute : compute () = .error fault) :
    Get isNull t key compute (.error fault, t)

theorem get_memoize (isNull : ν → Bool) (t : MemoTable κ ν) (key : κ) (compute : Unit → Except ε ν) :
    Get isNull t key compute (t.memoize isNull key compute) := by
  cases hanswer : t.answer? isNull key with
  | some v =>
    obtain ⟨hget, hnull⟩ := answer?_eq_some_iff.1 hanswer
    rw [memoize_of_answer hanswer]
    exact .hit v hget hnull
  | none =>
    have hholds : ¬Holds isNull t key := by
      rintro ⟨v, hv⟩
      rw [answer?_eq_some_iff.2 hv] at hanswer
      cases hanswer
    cases hcompute : compute () with
    | error fault =>
      rw [memoize_of_failed hanswer hcompute]
      exact .failed fault hholds hcompute
    | ok w =>
      rw [memoize_of_computed hanswer hcompute]
      cases hget : t.get? key with
      | some v =>
        have hnull : isNull v = true := by
          rw [← Bool.not_eq_false]
          exact fun hv => hholds ⟨v, hget, hv⟩
        simpa [store, hget] using Get.null v w hget hnull hcompute
      | none => simpa [store, hget] using Get.fresh w hget hcompute

/-! ## What a history leaves -/

theorem Faithful.concat (h : Faithful past) {e : Event κ ν ε} (he : ∀ r, e.return? = some r →
    ∃ first, firstOf? r.key (returns (sinceClear (past ++ [e]))) = some first ∧ first.computed = .ok r.value) :
    Faithful (past ++ [e]) := by
  intro before e' r hprefix hr
  rcases List.prefix_concat_iff.1 hprefix with heq | hprefix
  · obtain ⟨rfl, hlast⟩ := List.append_inj' heq rfl
    cases hlast
    exact he r hr
  · exact h before e' r hprefix hr

/-- What stands in a table behind some events, and what they came back with. -/
structure Recorded (past : List (Event κ ν ε)) (t : MemoTable κ ν) : Prop where
  stored : ∀ key, t.get? key = (firstOf? key (returns (sinceClear past))).map (·.value)
  computed : ∀ key first, firstOf? key (returns (sinceClear past)) = some first → first.computed = .ok first.value
  nodup : (t.entries.map (·.1)).Nodup
  counters : t.hits + t.misses = (returns past).length
  faithful : Faithful past

namespace Recorded

theorem empty : Recorded ([] : List (Event κ ν ε)) MemoTable.empty := by
  refine ⟨fun key => rfl, fun key first h => ?_, by simp [MemoTable.empty], rfl, fun before e r hprefix => ?_⟩
  · cases h
  · simp at hprefix

theorem clear (h : Recorded past t) (answer : Answer ν ε) : Recorded (past ++ [⟨.clear, answer⟩]) t.clear := by
  have hsince : sinceClear (past ++ [⟨.clear, answer⟩]) = [] := sinceClear_concat _
  refine ⟨fun key => ?_, fun key first hfirst => ?_, by simp [MemoTable.clear], ?_, h.faithful.concat fun r hr => ?_⟩
  · rw [hsince]
    rfl
  · rw [hsince] at hfirst
    cases hfirst
  · rw [returns_concat]
    simpa [MemoTable.clear, Event.return?] using h.counters
  · cases hr

/-- An event that neither clears the table nor comes back with a value. -/
theorem idle (h : Recorded past t) {e : Event κ ν ε} (hclear : e.isClear = false) (hreturn : e.return? = none) :
    Recorded (past ++ [e]) t := by
  have hsince : returns (sinceClear (past ++ [e])) = returns (sinceClear past) := by
    rw [returns_sinceClear_concat hclear, hreturn, Option.toList_none, List.append_nil]
  refine ⟨by rw [hsince]; exact h.stored, by rw [hsince]; exact h.computed, h.nodup, ?_, h.faithful.concat fun r hr => ?_⟩
  · rw [returns_concat, hreturn, Option.toList_none, List.append_nil]
    exact h.counters
  · rw [hreturn] at hr
    cases hr

/-- A get of a key that has a value. -/
theorem found (h : Recorded past t) (hget : t.get? key = some v) (hentries : t'.entries = t.entries)
    (hcounters : t'.hits + t'.misses = t.hits + t.misses + 1) : Recorded (past ++ [⟨.get key compute, .got (.ok v)⟩]) t' := by
  obtain ⟨first, hfirst, hvalue⟩ : ∃ first, firstOf? key (returns (sinceClear past)) = some first ∧ first.value = v := by
    rw [h.stored key, Option.map_eq_some_iff] at hget
    exact hget
  -- This get is not the first one of its key, so the first ones stay.
  have hsame : ∀ k, firstOf? k (returns (sinceClear past) ++ [⟨key, compute (), v⟩]) = firstOf? k (returns (sinceClear past)) := by
    intro k
    rw [firstOf?_append, firstOf?_singleton]
    by_cases hk : key = k
    · subst hk
      rw [hfirst, Option.some_or]
    · rw [if_neg hk, Option.or_none]
  refine ⟨fun k => ?_, fun k other hother => ?_, by rw [hentries]; exact h.nodup, ?_, h.faithful.concat fun r hr => ?_⟩
  · rw [returns_sinceClear_got, hsame, ← h.stored, get?, hentries, get?]
  · rw [returns_sinceClear_got, hsame] at hother
    exact h.computed k other hother
  · rw [returns_got, hcounters, h.counters, List.length_append, List.length_singleton]
  · cases hr
    rw [returns_sinceClear_got, hsame]
    exact ⟨first, hfirst, by rw [h.computed key first hfirst, hvalue]⟩

/-- A get of a key that has no value. -/
theorem fresh (h : Recorded past t) (hget : t.get? key = none) (hcompute : compute () = .ok v)
    (hentries : t'.entries = t.entries ++ [(key, v)]) (hcounters : t'.hits + t'.misses = t.hits + t.misses + 1) :
    Recorded (past ++ [⟨.get key compute, .got (.ok v)⟩]) t' := by
  have hnone : firstOf? key (returns (sinceClear past)) = none := by
    rwa [h.stored key, Option.map_eq_none_iff] at hget
  have hfirst : ∀ k, firstOf? k (returns (sinceClear past) ++ [⟨key, compute (), v⟩]) =
      if key = k then some ⟨key, compute (), v⟩ else firstOf? k (returns (sinceClear past)) := by
    intro k
    rw [firstOf?_append, firstOf?_singleton]
    by_cases hk : key = k
    · subst hk
      rw [hnone, Option.none_or]
    · rw [if_neg hk, if_neg hk, Option.or_none]
  refine ⟨fun k => ?_, fun k first hk => ?_, ?_, ?_, h.faithful.concat fun r hr => ?_⟩
  · rw [returns_sinceClear_got, hfirst, get?, hentries, List.lookup_append]
    by_cases hk : key = k
    · subst hk
      rw [get?] at hget
      simp [hget]
    · rw [if_neg hk, ← h.stored, get?]
      have hother : [(key, v)].lookup k = none := List.lookup_eq_none_iff.2 (by simpa using Ne.symm hk)
      rw [hother, Option.or_none]
  · rw [returns_sinceClear_got, hfirst] at hk
    split at hk
    · cases hk
      exact hcompute
    · exact h.computed k first hk
  · rw [hentries, List.map_append, List.nodup_append]
    refine ⟨h.nodup, by simp, ?_⟩
    intro k hk k' hk' heq
    obtain rfl : k' = key := by simpa using hk'
    rw [get?, List.lookup_eq_none_iff] at hget
    obtain ⟨entry, hentry, rfl⟩ := List.mem_map.1 hk
    simpa [heq] using hget entry hentry
  · rw [returns_got, hcounters, h.counters, List.length_append, List.length_singleton]
  · cases hr
    rw [returns_sinceClear_got, hfirst, if_pos rfl]
    exact ⟨_, rfl, hcompute⟩

/-- Every step goes on from what is recorded. -/
theorem take (h : Recorded past t) (isNull : ν → Bool) (s : Step κ ν ε) :
    Recorded (past ++ [⟨s, (MemoTable.take isNull t s).1⟩]) (MemoTable.take isNull t s).2 := by
  cases s with
  | clear => exact h.clear _
  | size => exact h.idle rfl rfl
  | get key compute =>
    have hget := get_memoize isNull t key compute
    simp only [MemoTable.take]
    generalize t.memoize isNull key compute = out at hget
    cases hget with
    | hit v hget _ => exact h.found hget rfl (Nat.add_right_comm _ _ _)
    | null v w hget _ _ => exact h.found hget rfl rfl
    | fresh w hget hcompute => exact h.fresh hget hcompute rfl rfl
    | failed fault _ _ => exact h.idle rfl rfl

/-- The keys of a table are those of the gets that came back since it was cleared. -/
theorem mem_keys (h : Recorded past t) : key ∈ t.entries.map (·.1) ↔ key ∈ (returns (sinceClear past)).map (·.key) := by
  rw [← isSome_firstOf?, ← Option.isSome_map (f := Return.value), ← h.stored, get?, ← Option.ne_none_iff_isSome, ne_eq,
    List.lookup_eq_none_iff]
  simp

end Recorded

theorem run_concat (isNull : ν → Bool) (steps : List (Step κ ν ε)) (s : Step κ ν ε) : run isNull (steps ++ [s]) =
    ((run isNull steps).1 ++ [⟨s, (take isNull (run isNull steps).2 s).1⟩], (take isNull (run isNull steps).2 s).2) :=
  List.foldl_concat _ _ _ _

/-- Every history is recorded. -/
theorem recorded_run (isNull : ν → Bool) (steps : List (Step κ ν ε)) : Recorded (run isNull steps).1 (run isNull steps).2 := by
  induction steps using List.reverseRecOn with
  | nil => exact Recorded.empty
  | append_singleton steps s ih =>
    rw [run_concat]
    exact ih.take isNull s

/-! ## The law of a table -/

theorem lawful_of_recorded (h : Recorded past t) (isNull : ν → Bool) : Lawful isNull past t where
  faithful := h.faithful
  stored key v := by
    rw [h.stored, Option.map_eq_some_iff]
    refine exists_congr fun first => and_congr_right fun hfirst => ?_
    rw [h.computed key first hfirst, Except.ok.injEq]
  counters := h.counters
  hit key compute := by
    have hget := get_memoize isNull t key compute
    generalize t.memoize isNull key compute = out at hget
    cases hget with
    | hit v hget hnull => exact iff_of_true rfl ⟨v, hget, hnull⟩
    | null v w hget hnull _ => exact iff_of_false (Nat.ne_of_lt (Nat.lt_succ_self _)) (not_holds_of_null hget hnull)
    | fresh w hget _ => exact iff_of_false (Nat.ne_of_lt (Nat.lt_succ_self _)) (not_holds_of_fresh hget)
    | failed fault hholds _ => exact iff_of_false (Nat.ne_of_lt (Nat.lt_succ_self _)) hholds
  size := by
    have hkeys : (t.entries.map (·.1)).toFinset = ((returns (sinceClear past)).map (·.key)).toFinset := by
      ext key
      rw [List.mem_toFinset, List.mem_toFinset, h.mem_keys]
    rw [take, ← hkeys, List.toFinset_card_of_nodup h.nodup, List.length_map, size]
  fails key compute fault := by
    have hget := get_memoize isNull t key compute
    generalize t.memoize isNull key compute = out at hget
    cases hget with
    | hit v hget hnull => simp [show Holds isNull t key from ⟨v, hget, hnull⟩]
    | null v w _ _ hcompute => simp [hcompute]
    | fresh w _ hcompute => simp [hcompute]
    | failed fault' hholds hcompute => simp [hholds, hcompute]
  failed key compute fault hfault := by
    have hget := get_memoize isNull t key compute
    generalize t.memoize isNull key compute = out at hget hfault
    cases hget with
    | failed fault' _ _ => rfl
    | _ => cases hfault

/-- Whatever is asked of a table, in whatever order, it keeps its law. -/
theorem run_lawful (isNull : ν → Bool) (steps : List (Step κ ν ε)) :
    (run isNull steps).1.map (·.step) = steps ∧ Lawful isNull (run isNull steps).1 (run isNull steps).2 := by
  refine ⟨?_, lawful_of_recorded (recorded_run isNull steps) isNull⟩
  induction steps using List.reverseRecOn with
  | nil => rfl
  | append_singleton steps s ih => rw [run_concat, List.map_append, ih, List.map_singleton]

/-- A stored null is no hit and stays, whatever is computed again. -/
example :
    let again : List (Step String (Option Nat) Empty) := [.get "a" (fun _ => .ok none), .get "a" (fun _ => .ok (some 1))]
    let left := (run Option.isNone again).2
    (left.get? "a", left.hits, left.misses) = (some none, 0, 2) := by decide

end MemoTable

end TokenForest

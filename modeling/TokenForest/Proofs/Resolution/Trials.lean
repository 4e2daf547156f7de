import TokenForest.Proofs.Confidence.Settled
import TokenForest.Proofs.Resolution.Alike
import TokenForest.Proofs.Resolution.Choice
import TokenForest.Proofs.Resolution.Places

/-!
# How readings are tried

A resolution tries every other reading that fits and chooses among those that pass. Which confidence each reading is tried with is left
open here: what is said holds of whatever confidences a computation finds, and of those that the outcome of a resolution states.
-/

namespace TokenForest

namespace Resolution

variable {c : Context} {p : Position} {s t : Symbol} {r : Resolution} {reading : Reading} {original b : Breakdown}
  {score : Reading → Breakdown → Prop}

/-! ## Refusals -/

/-- A reading passes when it reaches the threshold of its intent and the minimums, and its intent goes with that of the symbol. -/
theorem rejection?_eq_none_iff {config : Config} {grammar : Grammar} {intent intent' : Intent} (hb : b.psi.Settled)
    (htheta : config.thetaMin ≠ .nan) : rejection? config grammar intent intent' b = none ↔
      config.threshold intent' ≤ b.psi ∧ b.components.reaches config.componentMinimums = true ∧
        Intents.compatible grammar intent intent' = true := by
  have hlow := Binary64.not_lt hb.ne_nan (Config.threshold_ne_nan htheta intent')
  unfold rejection?
  rw [← hlow]
  constructor
  · intro h
    split at h
    · cases h
    · rename_i hreached
      split at h
      · cases h
      · rename_i hminimums
        split at h
        · cases h
        · rename_i hcompatible
          exact ⟨hreached, by simpa using hminimums, by simpa using hcompatible⟩
  · rintro ⟨hreached, hminimums, hcompatible⟩
    simp [hreached, hminimums, hcompatible]

/-! ## Trials -/

/-- A reading of the symbol at a position tried with a confidence: how it was judged, and the alternative when it passed. -/
def trial (c : Context) (p : Position) (s : Symbol) (reading : Reading) (b : Breakdown) : Candidate × Option Passing :=
  weigh c (c.grid.neighborhood p) (c.rowAt p) (c.indexAt p) (c.intentAt p) reading (reread s reading) b

/-- Nothing speaks against a reading with a confidence in the place of the symbol at a position. -/
def Passes (c : Context) (p : Position) (s : Symbol) (reading : Reading) (b : Breakdown) : Prop :=
  rejection? c.config c.grammar (c.intentAt p) (c.intentAs p (reread s reading)) b = none

theorem passes_iff (hb : b.psi.Settled) (htheta : c.config.thetaMin ≠ .nan) : Passes c p s reading b ↔
    c.config.threshold (c.intentAs p (reread s reading)) ≤ b.psi ∧ b.components.reaches c.config.componentMinimums = true ∧
      Intents.compatible c.grammar (c.intentAt p) (c.intentAs p (reread s reading)) = true := rejection?_eq_none_iff hb htheta

/-- The alternative that a reading with a confidence makes of the symbol at a position. -/
def alternative (c : Context) (p : Position) (s : Symbol) (reading : Reading) (b : Breakdown) : Passing :=
  ⟨reread s reading, b, supportAt c p reading⟩

/-- A reading that is tried with a confidence makes its alternative when it passes. -/
theorem trial_eq_some_iff {passing : Passing} :
    (trial c p s reading b).2 = some passing ↔ Passes c p s reading b ∧ passing = alternative c p s reading b := by
  unfold trial weigh alternative supportAt Passes Context.intentAs
  simp only
  split
  · rename_i code hcode
    simp [hcode]
  · rename_i hnone
    simp [hnone, eq_comm]

/-- A resolution of the symbol at a position with a confidence: each of its other readings is tried with a confidence that has a
property, and the best of those that pass is chosen. -/
inductive Weighed (c : Context) (p : Position) (s : Symbol) (original : Breakdown) (score : Reading → Breakdown → Prop) :
    Resolution → Prop where
  | tried (scored : List (Reading × Breakdown)) (readings : scored.map Prod.fst = c.readingsAt p s)
      (scores : ∀ e ∈ scored, score e.1 e.2) :
    Weighed c p s original score (ofTried original (c.intentAt p) (scored.map fun e => trial c p s e.1 e.2))

/-- Readings that have all been tried make a resolution. -/
theorem weighed_of_forall₂ {tries : List (Candidate × Option Passing)}
    (h : List.Forall₂ (fun reading t => ∃ b, score reading b ∧ t = trial c p s reading b) (c.readingsAt p s) tries) :
    Weighed c p s original score (ofTried original (c.intentAt p) tries) := by
  have hscored : ∀ {readings : List Reading} {tries : List (Candidate × Option Passing)},
      List.Forall₂ (fun reading t => ∃ b, score reading b ∧ t = trial c p s reading b) readings tries →
        ∃ scored : List (Reading × Breakdown), scored.map Prod.fst = readings ∧ (∀ e ∈ scored, score e.1 e.2) ∧
          tries = scored.map fun e => trial c p s e.1 e.2 := by
    intro readings tries h
    induction h with
    | nil => exact ⟨[], rfl, by simp, rfl⟩
    | cons hfirst _ ih =>
      obtain ⟨b, hb, rfl⟩ := hfirst
      obtain ⟨scored, rfl, hall, rfl⟩ := ih
      exact ⟨(_, b) :: scored, rfl, by simpa using ⟨hb, fun r b => hall (r, b)⟩, rfl⟩
  obtain ⟨scored, hreadings, hall, rfl⟩ := hscored h
  exact .tried scored hreadings hall

/-- A resolution that has an outcome tries the readings with the confidences of the first ones with their tags. -/
theorem outcome_eq_ok (h : outcome c p = .ok r) : ∃ s original, c.grid.symbolAt? p = some s ∧ c.breakdown s p = .ok original ∧
    Weighed c p s original (fun reading b => c.breakdown (reread s (standIn (c.readingsAt p s) reading)) p = .ok b) r := by
  obtain ⟨s, hs, h⟩ := ok_of_bind h
  obtain ⟨original, horiginal, h⟩ := ok_of_bind h
  obtain ⟨tries, htries, h⟩ := ok_of_bind h
  cases h
  refine ⟨s, original, Context.symbolAt?_of_symbolAt hs, horiginal, weighed_of_forall₂ ((forall₂_of_mapM htries).imp ?_)⟩
  intro reading t ht
  obtain ⟨alternative, halternative, ht⟩ := ok_of_bind ht
  obtain rfl := Symbol.eq_of_check (ok_of_mapError halternative)
  obtain ⟨b, hb, ht⟩ := ok_of_bind ht
  cases ht
  exact ⟨b, hb, rfl⟩

/-- Where a resolution has an outcome, the hints of all readings that it tries are on the list. -/
theorem isKnown_of_outcome (hs : c.grid.symbolAt? p = some s) (h : outcome c p = .ok r) (hreading : reading ∈ c.readingsAt p s) :
    reading.hint.isKnown = true := by
  obtain ⟨s', hs', h⟩ := ok_of_bind h
  cases hs.symm.trans (Context.symbolAt?_of_symbolAt hs')
  obtain ⟨_, _, h⟩ := ok_of_bind h
  obtain ⟨tries, htries, _⟩ := ok_of_bind h
  obtain ⟨_, _, htried⟩ := exists_of_forall₂_left (forall₂_of_mapM htries) hreading
  obtain ⟨alternative, halternative, _⟩ := ok_of_bind htried
  exact Symbol.isKnown_of_fault? (Symbol.check_eq_ok_iff.1 (ok_of_mapError halternative)).1

namespace Weighed

theorem mono {score' : Reading → Breakdown → Prop} (h : Weighed c p s original score r)
    (hscore : ∀ reading ∈ c.readingsAt p s, ∀ b, score reading b → score' reading b) : Weighed c p s original score' r := by
  obtain ⟨scored, hreadings, hall⟩ := h
  refine .tried scored hreadings fun e he => hscore e.1 ?_ e.2 (hall e he)
  rw [← hreadings]
  exact List.mem_map_of_mem he

theorem originalIntent (h : Weighed c p s original score r) : r.originalIntent = c.intentAt p := by
  cases h
  rfl

/-- The candidates are the readings as they were tried, in their order. -/
theorem candidates (h : Weighed c p s original score r) :
    List.Forall₂ (fun reading candidate => ∃ b, score reading b ∧ candidate = (trial c p s reading b).1) (c.readingsAt p s)
      r.candidates := by
  obtain ⟨scored, hreadings, hall⟩ := h
  rw [← hreadings]
  unfold ofTried
  rw [List.map_map, List.forall₂_map_left_iff, List.forall₂_map_right_iff, List.forall₂_same]
  exact fun e he => ⟨e.2, hall e he, rfl⟩

/-- A reading that is chosen passes, and it is preferred to the passing ones before it, and none behind it is preferred to it. -/
theorem chosen (h : Weighed c p s original score r) (hsettled : ∀ reading b, score reading b → b.psi.Settled)
    (hchosen : r.chosen = some (t, b)) : ∃ front back : List (Reading × Breakdown), ∃ reading,
      c.readingsAt p s = front.map Prod.fst ++ reading :: back.map Prod.fst ∧ t = reread s reading ∧
      score reading b ∧ Passes c p s reading b ∧
      (∀ e ∈ front, score e.1 e.2 ∧
        (Passes c p s e.1 e.2 → preferred (alternative c p s e.1 e.2) (alternative c p s reading b) = true)) ∧
      ∀ e ∈ back, score e.1 e.2 ∧
        (Passes c p s e.1 e.2 → preferred (alternative c p s reading b) (alternative c p s e.1 e.2) = false) := by
  obtain ⟨scored, hreadings, hall⟩ := h
  obtain ⟨best, hbest, rfl, rfl⟩ := chosen_ofTried_eq_some_iff.1 hchosen
  rw [List.filterMap_map] at hbest
  have hpsi : ∀ x ∈ scored.filterMap ((·.2) ∘ fun e => trial c p s e.1 e.2), x.breakdown.psi ≠ .nan := by
    intro x hx
    obtain ⟨e, he, hpassing⟩ := List.mem_filterMap.1 hx
    obtain ⟨_, rfl⟩ := trial_eq_some_iff.1 hpassing
    exact (hsettled _ _ (hall e he)).ne_nan
  obtain ⟨better, worse, hsplit, hbetter, hworse⟩ := exists_of_choose hpsi hbest
  obtain ⟨front, rest, rfl, hfront, hrest⟩ := List.filterMap_eq_append_iff.1 hsplit
  obtain ⟨failed, e, back, rfl, hfailed, he, hback⟩ := List.filterMap_eq_cons_iff.1 hrest
  obtain ⟨hpasses, rfl⟩ := trial_eq_some_iff.1 he
  refine ⟨front ++ failed, back, e.1, by simp [← hreadings], rfl, hall e (by simp), hpasses, ?_, ?_⟩
  · intro e' he'
    rcases List.mem_append.1 he' with he' | he'
    · refine ⟨hall e' (by simp [he']), fun hpasses' => hbetter _ (hfront ▸ List.mem_filterMap.2 ⟨e', he', ?_⟩)⟩
      exact trial_eq_some_iff.2 ⟨hpasses', rfl⟩
    · refine ⟨hall e' (by simp [he']), fun hpasses' => ?_⟩
      have hmade := (hfailed e' he').symm.trans (trial_eq_some_iff.2 ⟨hpasses', rfl⟩)
      cases hmade
  · intro e' he'
    refine ⟨hall e' (by simp [he']), fun hpasses' => hworse _ (hback ▸ List.mem_filterMap.2 ⟨e', he', ?_⟩)⟩
    exact trial_eq_some_iff.2 ⟨hpasses', rfl⟩

/-- Where no reading is chosen, something speaks against each of them. -/
theorem refused (h : Weighed c p s original score r) (hnone : r.chosen = none) :
    ∀ reading ∈ c.readingsAt p s, ∃ b, score reading b ∧ ¬Passes c p s reading b := by
  obtain ⟨scored, hreadings, hall⟩ := h
  intro reading hreading
  rw [← hreadings] at hreading
  obtain ⟨e, he, rfl⟩ := List.mem_map.1 hreading
  have hfailed := chosen_ofTried_eq_none_iff.1 hnone _ (List.mem_map_of_mem he)
  refine ⟨e.2, hall e he, fun hpasses => ?_⟩
  rw [trial_eq_some_iff.2 ⟨hpasses, rfl⟩] at hfailed
  cases hfailed

/-- The best confidence is the greatest of that of the symbol and those of its other readings. -/
theorem best (h : Weighed c p s original score r) (horiginal : original.psi.Settled)
    (hsettled : ∀ reading b, score reading b → b.psi.Settled) :
    (r.bestConfidence = original.psi ∨ ∃ reading ∈ c.readingsAt p s, ∃ b, score reading b ∧ r.bestConfidence = b.psi) ∧
      original.psi ≤ r.bestConfidence ∧ ∀ reading ∈ c.readingsAt p s, ∃ b, score reading b ∧ b.psi ≤ r.bestConfidence := by
  obtain ⟨scored, hreadings, hall⟩ := h
  have htried : ∀ t ∈ scored.map (fun e => trial c p s e.1 e.2), t.1.psi.Settled := by
    intro t ht
    obtain ⟨e, he, rfl⟩ := List.mem_map.1 ht
    exact hsettled _ _ (hall e he)
  obtain ⟨hmem, hle⟩ := @bestConfidence_ofTried original (c.intentAt p) _ horiginal htried
  refine ⟨?_, hle _ (by simp), ?_⟩
  · rcases List.mem_cons.1 hmem with hmem | hmem
    · exact Or.inl hmem
    · rw [List.map_map] at hmem
      obtain ⟨e, he, hpsi⟩ := List.mem_map.1 hmem
      exact Or.inr ⟨e.1, hreadings ▸ List.mem_map_of_mem he, e.2, hall e he, hpsi.symm⟩
  · intro reading hreading
    rw [← hreadings] at hreading
    obtain ⟨e, he, rfl⟩ := List.mem_map.1 hreading
    refine ⟨e.2, hall e he, hle _ (List.mem_cons_of_mem _ ?_)⟩
    rw [List.map_map]
    exact List.mem_map.2 ⟨e, he, rfl⟩

/-- The best confidence is no less than that of the reading which is chosen. -/
theorem chosen_le_best (h : Weighed c p s original score r) (horiginal : original.psi.Settled)
    (hsettled : ∀ reading b, score reading b → b.psi.Settled) (hchosen : r.chosen = some (t, b)) : b.psi ≤ r.bestConfidence := by
  obtain ⟨scored, _, hall⟩ := h
  obtain ⟨best, hbest, _, rfl⟩ := chosen_ofTried_eq_some_iff.1 hchosen
  obtain ⟨tried, htried, hpassing⟩ := List.mem_filterMap.1 (mem_of_choose hbest)
  refine (bestConfidence_ofTried horiginal ?_).2 best.breakdown.psi (List.mem_cons_of_mem _ (List.mem_map.2 ⟨tried, htried, ?_⟩))
  · intro t ht
    obtain ⟨e, he, rfl⟩ := List.mem_map.1 ht
    exact hsettled _ _ (hall e he)
  · obtain ⟨e, _, rfl⟩ := List.mem_map.1 htried
    obtain ⟨_, rfl⟩ := trial_eq_some_iff.1 hpassing
    rfl

end Weighed

end Resolution

end TokenForest

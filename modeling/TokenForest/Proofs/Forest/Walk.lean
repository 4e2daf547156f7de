import TokenForest.Proofs.Forest.Unfolding

/-!
# The walk of a forest

The walk lists the nodes that can be reached from the roots, each of them once. A visit marks a node before its children, so
the nodes seen are not closed under children while it runs; what holds all the time is that every node a finished visit has
added has all its children among the nodes seen.
-/

namespace TokenForest

namespace Forest

/-- What a visit does to the nodes seen: it adds nodes at the end, each once, and sees all their children. -/
structure Visited (f : Forest) (seen result : List Nat) : Prop where
  grows : seen <+: result
  nodup : seen.Nodup → result.Nodup
  closed : ∀ j ∈ result, j ∉ seen → ∀ c ∈ f.children j, c ∈ result

theorem nodup_snoc {seen : List Nat} {i : Nat} (hn : seen.Nodup) (hi : i ∉ seen) : (seen ++ [i]).Nodup := by
  refine List.nodup_append.2 ⟨hn, by simp, ?_⟩
  intro a ha b hb hab
  rw [List.mem_singleton] at hb
  exact hi (hb ▸ hab ▸ ha)

namespace Visited

variable {f : Forest} {a b c : List Nat}

theorem refl (f : Forest) (a : List Nat) : Visited f a a :=
  ⟨List.prefix_refl _, id, fun _ hj hn => absurd hj hn⟩

theorem trans (h : Visited f a b) (h' : Visited f b c) : Visited f a c := by
  refine ⟨h.grows.trans h'.grows, fun ha => h'.nodup (h.nodup ha), ?_⟩
  intro j hj hn x hx
  by_cases hb : j ∈ b
  · exact h'.grows.subset (h.closed j hb hn x hx)
  · exact h'.closed j hj hb x hx

/-- Visiting nodes one after the other sees them all. -/
theorem foldl {step : List Nat → Nat → List Nat} {cs : List Nat}
    (h : ∀ c ∈ cs, ∀ seen, Visited f seen (step seen c) ∧ c ∈ step seen c) (seen : List Nat) :
    Visited f seen (cs.foldl step seen) ∧ ∀ c ∈ cs, c ∈ cs.foldl step seen := by
  induction cs generalizing seen with
  | nil => exact ⟨refl f seen, by simp⟩
  | cons x cs ih =>
    obtain ⟨h1, hx⟩ := h x (by simp) seen
    obtain ⟨h2, hcs⟩ := ih (fun c hc => h c (by simp [hc])) (step seen x)
    refine ⟨h1.trans h2, fun c hc => ?_⟩
    rcases List.mem_cons.1 hc with rfl | hc
    · exact h2.grows.subset hx
    · exact hcs c hc

end Visited

variable {f : Forest}

/-- A visit that may go as deep as a node is high sees the node and adds closed nodes only. -/
theorem WellFormed.visited_visit (hf : f.WellFormed) {d i : Nat} (h : f.height i ≤ d) (seen : List Nat) :
    Visited f seen (f.visit d seen i) ∧ i ∈ f.visit d seen i := by
  induction d generalizing i seen with
  | zero =>
    rw [visit]
    by_cases hs : i ∈ seen
    · rw [if_pos (List.contains_iff_mem.2 hs)]
      exact ⟨Visited.refl f seen, hs⟩
    · rw [if_neg (by simpa using hs)]
      refine ⟨⟨List.prefix_append _ _, fun hn => ?_, fun j hj hn c hc => ?_⟩, by simp⟩
      · exact nodup_snoc hn hs
      · have hji : j = i := by simpa [hn] using hj
        rw [hji, hf.children_eq_nil (Nat.le_zero.1 h)] at hc
        simp at hc
  | succ d ih =>
    rw [visit]
    by_cases hs : i ∈ seen
    · rw [if_pos (List.contains_iff_mem.2 hs)]
      exact ⟨Visited.refl f seen, hs⟩
    · rw [if_neg (by simpa using hs)]
      have hchildren : ∀ c ∈ f.children i, ∀ seen, Visited f seen (f.visit d seen c) ∧ c ∈ f.visit d seen c := by
        intro c hc seen
        have := hf.height_child_lt hc
        exact ih (by omega) seen
      obtain ⟨hv, hall⟩ := Visited.foldl hchildren (seen ++ [i])
      refine ⟨⟨(List.prefix_append _ _).trans hv.grows, fun hn => hv.nodup ?_, fun j hj hn c hc => ?_⟩,
        hv.grows.subset (by simp)⟩
      · exact nodup_snoc hn hs
      · by_cases hji : j = i
        · exact hall c (hji ▸ hc)
        · exact hv.closed j hj (by simp [hn, hji]) c hc

/-- A visit adds only nodes that a walk down from its node meets. -/
theorem mem_of_mem_visit {d i j : Nat} {seen : List Nat} (h : j ∈ f.visit d seen i) : j ∈ seen ∨ j ∈ f.below d i := by
  induction d generalizing i j seen with
  | zero =>
    rw [visit] at h
    split at h
    · exact Or.inl h
    · simpa [below] using h
  | succ d ih =>
    rw [visit] at h
    split at h
    · exact Or.inl h
    · have hfold : ∀ (cs seen : List Nat), j ∈ cs.foldl (f.visit d) seen → j ∈ seen ∨ j ∈ cs.flatMap (f.below d) := by
        intro cs
        induction cs with
        | nil => intro seen hj; exact Or.inl hj
        | cons c cs ihc =>
          intro seen hj
          rcases ihc _ hj with hj | hj
          · rcases ih hj with hj | hj
            · exact Or.inl hj
            · exact Or.inr (by simp [hj])
          · exact Or.inr (by simp [hj])
      rcases hfold _ _ h with h | h
      · rcases List.mem_append.1 h with h | h
        · exact Or.inl h
        · exact Or.inr (by simp_all [below])
      · exact Or.inr (by simp [below, h])

/-- What is met below a node that can be reached can be reached. -/
theorem Reachable.of_mem_below {d i j : Nat} (hi : f.Reachable i) (hj : j ∈ f.below d i) : f.Reachable j := by
  induction d generalizing i with
  | zero =>
    rw [Forest.below, List.mem_singleton] at hj
    exact hj ▸ hi
  | succ d ih =>
    rw [Forest.below, List.mem_cons, List.mem_flatMap] at hj
    rcases hj with rfl | ⟨c, hc, hj⟩
    · exact hi
    · exact ih (hi.child hc) hj

/-- The walk as it stands after some of the roots. -/
theorem WellFormed.visited_roots (hf : f.WellFormed) (roots seen : List Nat) :
    Visited f seen (roots.foldl (fun seen r => f.visit (f.height r) seen r) seen) ∧
      ∀ r ∈ roots, r ∈ roots.foldl (fun seen r => f.visit (f.height r) seen r) seen :=
  Visited.foldl (fun _ _ seen => hf.visited_visit (Nat.le_refl _) seen) seen

/-- The walk meets no node twice. -/
theorem WellFormed.nodup_walk (hf : f.WellFormed) : f.walk.Nodup :=
  (hf.visited_roots f.roots []).1.nodup List.nodup_nil

/-- The walk meets exactly the nodes that can be reached. -/
theorem WellFormed.mem_walk_iff (hf : f.WellFormed) (i : Nat) : i ∈ f.walk ↔ f.Reachable i := by
  constructor
  · have hsound : ∀ (roots seen : List Nat), (∀ r ∈ roots, f.Reachable r) → (∀ j ∈ seen, f.Reachable j) →
        ∀ j ∈ roots.foldl (fun seen r => f.visit (f.height r) seen r) seen, f.Reachable j := by
      intro roots
      induction roots with
      | nil => intro seen _ hs; exact hs
      | cons r roots ih =>
        intro seen hr hs
        apply ih _ (fun x hx => hr x (by simp [hx]))
        intro j hj
        rcases mem_of_mem_visit hj with hj | hj
        · exact hs j hj
        · exact (hr r (by simp)).of_mem_below hj
    exact hsound f.roots [] (fun r hr => Reachable.root hr) (by simp) i
  · obtain ⟨hv, hroots⟩ := hf.visited_roots f.roots []
    intro h
    induction h with
    | root hr => exact hroots _ hr
    | child _ hc ih => exact hv.closed _ ih (by simp) _ hc

theorem WellFormed.root_mem_walk (hf : f.WellFormed) {r : Nat} (h : r ∈ f.roots) : r ∈ f.walk :=
  (hf.mem_walk_iff r).2 (Reachable.root h)

/-- The walk meets the children of the nodes it meets. -/
theorem WellFormed.child_mem_walk (hf : f.WellFormed) {i c : Nat} (h : i ∈ f.walk) (hc : c ∈ f.children i) : c ∈ f.walk :=
  (hf.mem_walk_iff c).2 (((hf.mem_walk_iff i).1 h).child hc)

/-- Every node that can be reached is in the table. -/
theorem WellFormed.lt_of_mem_walk (hf : f.WellFormed) {i : Nat} (h : i ∈ f.walk) : i < f.nodes.size := by
  cases (hf.mem_walk_iff i).1 h with
  | root hr => exact hf.2 i hr
  | child _ hc => exact hf.child_lt hc

end Forest

end TokenForest

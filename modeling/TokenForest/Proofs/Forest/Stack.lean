import Mathlib.Algebra.GroupWithZero.Nat
import Mathlib.Logic.Function.Iterate
import TokenForest.Forest.Stack
import TokenForest.Proofs.Forest.Merged
import TokenForest.Proofs.Forest.Walk

/-!
# The walk with a stack

The loop over a stack comes to its end after as many rounds as nodes are put onto the stack, and has then listed what the recursive walk
lists: the nodes of the unfolded roots in pre-order, each of them where it is met first.
-/

namespace TokenForest

namespace Forest

variable {f : Forest}

/-! ## The loop visits the nodes on the stack -/

theorem round_of_mem {listed rest : List Nat} {i : Nat} (h : i ∈ listed) : f.round ⟨listed, i :: rest⟩ = ⟨listed, rest⟩ :=
  if_pos (List.contains_iff_mem.2 h)

theorem round_of_notMem {listed rest : List Nat} {i : Nat} (h : i ∉ listed) :
    f.round ⟨listed, i :: rest⟩ = ⟨listed ++ [i], f.children i ++ rest⟩ :=
  if_neg (by simpa using h)

/-- The stack is taken down to what stands below some nodes, which are visited one after the other when each of them is. -/
theorem iterate_round_foldl {visit : List Nat → Nat → List Nat} {cs : List Nat}
    (h : ∀ c ∈ cs, ∀ listed rest, ∃ new, visit listed c = listed ++ new ∧
      f.round^[f.rounds [c] new] ⟨listed, c :: rest⟩ = ⟨listed ++ new, rest⟩) (listed rest : List Nat) :
    ∃ new, cs.foldl visit listed = listed ++ new ∧ f.round^[f.rounds cs new] ⟨listed, cs ++ rest⟩ = ⟨listed ++ new, rest⟩ := by
  induction cs generalizing listed with
  | nil => exact ⟨[], by simp, by simp [rounds]⟩
  | cons c cs ih =>
    obtain ⟨first, hfirst, hround⟩ := h c (by simp) listed (cs ++ rest)
    obtain ⟨more, hmore, hrounds⟩ := ih (fun d hd => h d (by simp [hd])) (listed ++ first)
    refine ⟨first ++ more, by rw [List.foldl_cons, hfirst, hmore, List.append_assoc], ?_⟩
    have hsum : f.rounds (c :: cs) (first ++ more) = f.rounds cs more + f.rounds [c] first := by
      simp only [rounds, List.length_cons, List.length_nil, List.map_append, List.sum_append]
      omega
    rw [hsum, Function.iterate_add_apply, List.cons_append, hround, hrounds, List.append_assoc]

/-- A node that is listed already is dropped. -/
theorem iterate_round_of_mem {d i : Nat} {listed : List Nat} (h : i ∈ listed) (rest : List Nat) :
    ∃ new, f.visit d listed i = listed ++ new ∧ f.round^[f.rounds [i] new] ⟨listed, i :: rest⟩ = ⟨listed ++ new, rest⟩ := by
  have hvisit : f.visit d listed i = listed := by cases d <;> exact if_pos (List.contains_iff_mem.2 h)
  refine ⟨[], by rw [hvisit, List.append_nil], ?_⟩
  change f.round ⟨listed, i :: rest⟩ = _
  rw [round_of_mem h, List.append_nil]

/-- The node on top of the stack is visited. -/
theorem WellFormed.iterate_round_visit (hf : f.WellFormed) {d i : Nat} (hd : f.height i ≤ d) (listed rest : List Nat) :
    ∃ new, f.visit d listed i = listed ++ new ∧ f.round^[f.rounds [i] new] ⟨listed, i :: rest⟩ = ⟨listed ++ new, rest⟩ := by
  induction d generalizing i listed rest with
  | zero =>
    by_cases hi : i ∈ listed
    · exact iterate_round_of_mem hi rest
    · refine ⟨[i], if_neg (by simpa using hi), ?_⟩
      have hnil := hf.children_eq_nil (Nat.le_zero.1 hd)
      have hone : f.rounds [i] [i] = 1 := by simp [rounds, hnil]
      rw [hone, Function.iterate_one, round_of_notMem hi, hnil, List.nil_append]
  | succ d ih =>
    by_cases hi : i ∈ listed
    · exact iterate_round_of_mem hi rest
    · have hchildren : ∀ c ∈ f.children i, ∀ listed rest, ∃ new, f.visit d listed c = listed ++ new ∧
          f.round^[f.rounds [c] new] ⟨listed, c :: rest⟩ = ⟨listed ++ new, rest⟩ := by
        intro c hc
        have := hf.height_child_lt hc
        exact ih (by omega)
      obtain ⟨new, hvisit, hrounds⟩ := iterate_round_foldl hchildren (listed ++ [i]) rest
      refine ⟨i :: new, ?_, ?_⟩
      · rw [visit, if_neg (by simpa using hi), hvisit, List.append_assoc, List.singleton_append]
      · -- one round lists the node, the others are those of its children
        have hsum : f.rounds [i] (i :: new) = f.rounds (f.children i) new + 1 := by
          simp only [rounds, List.length_cons, List.length_nil, List.map_cons, List.sum_cons]
          omega
        rw [hsum, Function.iterate_add_apply, Function.iterate_one, round_of_notMem hi, hrounds, List.append_assoc,
          List.singleton_append]

/-- The loop ends, and has then listed the nodes of the recursive walk. -/
theorem WellFormed.iterate_round_stacked (hf : f.WellFormed) :
    f.round^[f.rounds f.roots f.walk] f.stacked = ⟨f.walk, []⟩ := by
  have hvisits : ∀ r ∈ f.roots, ∀ listed rest, ∃ new, f.visit (f.height r) listed r = listed ++ new ∧
      f.round^[f.rounds [r] new] ⟨listed, r :: rest⟩ = ⟨listed ++ new, rest⟩ :=
    fun r _ => hf.iterate_round_visit (Nat.le_refl (f.height r))
  obtain ⟨new, hwalk, hrounds⟩ := iterate_round_foldl hvisits [] []
  rw [List.append_nil, List.nil_append] at hrounds
  have hnew : f.walk = new := hwalk
  rw [hnew]
  exact hrounds

/-! ## First occurrences -/

/-- The listed nodes with those of some nodes that are not listed yet, each where it comes first. -/
def listing (listed nodes : List Nat) : List Nat := listed ++ (nodes.filter (fun i => decide (i ∉ listed))).eraseDups

theorem listing_cons_of_mem {listed nodes : List Nat} {i : Nat} (h : i ∈ listed) : listing listed (i :: nodes) = listing listed nodes := by
  rw [listing, List.filter_cons_of_neg (by simpa using h), ← listing]

theorem listing_cons_of_notMem {listed nodes : List Nat} {i : Nat} (h : i ∉ listed) :
    listing listed (i :: nodes) = listing (listed ++ [i]) nodes := by
  rw [listing, List.filter_cons_of_pos (by simpa using h), List.eraseDups_cons, listing, List.filter_filter, List.append_assoc,
    List.singleton_append]
  congr 3
  apply List.filter_congr
  intro j _
  by_cases hj : j = i <;> simp [hj]

theorem listing_of_subset {listed nodes : List Nat} (h : ∀ i ∈ nodes, i ∈ listed) : listing listed nodes = listed := by
  rw [listing, List.filter_eq_nil_iff.2 (fun i hi => by simpa using h i hi), List.eraseDups_nil, List.append_nil]

theorem listing_append (listed nodes more : List Nat) : listing listed (nodes ++ more) = listing (listing listed nodes) more := by
  induction nodes generalizing listed with
  | nil => rw [List.nil_append, listing_of_subset (List.forall_mem_nil _)]
  | cons i nodes ih =>
    rw [List.cons_append]
    by_cases hi : i ∈ listed
    · rw [listing_cons_of_mem hi, listing_cons_of_mem hi, ih]
    · rw [listing_cons_of_notMem hi, listing_cons_of_notMem hi, ih]

/-- The listed nodes with the property have their children listed, too. Only the nodes above the one that is visited may have others. -/
def ClosedOn (f : Forest) (P : Nat → Prop) (listed : List Nat) : Prop := ∀ j ∈ listed, P j → ∀ c ∈ f.children j, c ∈ listed

/-- A visit keeps the listed nodes closed. -/
theorem ClosedOn.visited {P : Nat → Prop} {listed result : List Nat} (h : f.ClosedOn P listed) (hv : Visited f listed result) :
    f.ClosedOn P result := by
  intro j hj hP c hc
  by_cases hl : j ∈ listed
  · exact hv.grows.subset (h j hl hP c hc)
  · exact hv.closed j hj hl c hc

/-- All that stands below a listed node is listed. -/
theorem WellFormed.below_subset (hf : f.WellFormed) {listed : List Nat} {d i : Nat}
    (hclosed : f.ClosedOn (fun j => f.height j ≤ f.height i) listed) (hi : i ∈ listed) : ∀ j ∈ f.below d i, j ∈ listed := by
  induction d generalizing i with
  | zero =>
    intro j hj
    rw [below, List.mem_singleton] at hj
    exact hj ▸ hi
  | succ d ih =>
    intro j hj
    rw [below, List.mem_cons, List.mem_flatMap] at hj
    rcases hj with rfl | ⟨c, hc, hj⟩
    · exact hi
    · have hlt := hf.height_child_lt hc
      exact ih (fun k hk hle => hclosed k hk (Nat.le_trans hle (Nat.le_of_lt hlt))) (hclosed i hi (Nat.le_refl _) c hc) j hj

/-- Visiting nodes one after the other lists what a walk down from them meets, where each visit does so. -/
theorem foldl_visit_eq_listing {visit : List Nat → Nat → List Nat} {met : Nat → List Nat} {P : Nat → Prop} {cs : List Nat}
    (h : ∀ c ∈ cs, ∀ listed, f.ClosedOn P listed →
      visit listed c = listing listed (met c) ∧ Visited f listed (visit listed c)) {listed : List Nat}
    (hclosed : f.ClosedOn P listed) : cs.foldl visit listed = listing listed (cs.flatMap met) := by
  induction cs generalizing listed with
  | nil => rw [List.foldl_nil, List.flatMap_nil, listing_of_subset (by simp)]
  | cons c cs ih =>
    obtain ⟨heq, hv⟩ := h c (by simp) listed hclosed
    rw [List.foldl_cons, ih (fun d hd => h d (by simp [hd])) (hclosed.visited hv), heq, List.flatMap_cons, listing_append]

/-- A visit lists what a walk down from its node meets and is not listed yet, in that order. -/
theorem WellFormed.visit_eq_listing (hf : f.WellFormed) {d i : Nat} (hd : f.height i ≤ d) {listed : List Nat}
    (hclosed : f.ClosedOn (fun j => f.height j ≤ f.height i) listed) : f.visit d listed i = listing listed (f.below d i) := by
  induction d generalizing i listed with
  | zero =>
    by_cases hi : i ∈ listed
    · rw [visit, if_pos (List.contains_iff_mem.2 hi), listing_of_subset (hf.below_subset hclosed hi)]
    · rw [visit, if_neg (by simpa using hi), below, listing_cons_of_notMem hi, listing_of_subset (by simp)]
  | succ d ih =>
    by_cases hi : i ∈ listed
    · rw [visit, if_pos (List.contains_iff_mem.2 hi), listing_of_subset (hf.below_subset hclosed hi)]
    · -- among the nodes below `i` all listed ones are closed, `i` itself is not one of them
      have hbelow : f.ClosedOn (fun j => f.height j < f.height i) (listed ++ [i]) := by
        intro j hj hlt c hc
        rcases List.mem_append.1 hj with hj | hj
        · exact List.mem_append_left _ (hclosed j hj (Nat.le_of_lt hlt) c hc)
        · rw [List.mem_singleton] at hj
          exact absurd hlt (hj ▸ Nat.lt_irrefl _)
      rw [visit, if_neg (by simpa using hi), below, listing_cons_of_notMem hi]
      refine foldl_visit_eq_listing (fun c hc seen hseen => ?_) hbelow
      have hlt := hf.height_child_lt hc
      exact ⟨ih (by omega) (fun j hj hle => hseen j hj (Nat.lt_of_le_of_lt hle hlt)), (hf.visited_visit (by omega) seen).1⟩

/-- The walk lists the nodes of the unfolded roots in pre-order, each of them where it comes first. -/
theorem WellFormed.walk_eq_eraseDups (hf : f.WellFormed) : f.walk = f.preorder.eraseDups := by
  have hvisit : ∀ r ∈ f.roots, ∀ listed, f.ClosedOn (fun _ => True) listed →
      f.visit (f.height r) listed r = listing listed (f.below (f.height r) r) ∧ Visited f listed (f.visit (f.height r) listed r) := by
    intro r _ listed hclosed
    exact ⟨hf.visit_eq_listing (Nat.le_refl _) (fun j hj _ => hclosed j hj trivial), (hf.visited_visit (Nat.le_refl _) listed).1⟩
  calc f.walk = listing [] f.preorder := foldl_visit_eq_listing hvisit (by simp [ClosedOn])
    _ = f.preorder.eraseDups := by simp [listing]

/-! ## How many nodes are listed -/

/-- A tree has as many nodes as a walk through it meets. -/
theorem length_below (f : Forest) (d i : Nat) : (f.below d i).length = (f.unfold d i).size := by
  have hsizes : ∀ ts : List SyntaxTree, SyntaxTree.sizes ts = (ts.map SyntaxTree.size).sum := by
    intro ts
    induction ts with
    | nil => rfl
    | cons t ts ih => rw [SyntaxTree.sizes, ih, List.map_cons, List.sum_cons]
  induction d generalizing i with
  | zero => simp [below, unfold, SyntaxTree.size, SyntaxTree.sizes]
  | succ d ih =>
    rw [below, unfold, SyntaxTree.size, hsizes, List.length_cons, List.length_flatMap, List.map_map, Nat.add_comm]
    congr 2
    exact List.map_congr_left fun c _ => ih c

theorem length_preorder (f : Forest) : f.preorder.length = (f.trees.map SyntaxTree.size).sum := by
  rw [preorder, trees, List.length_flatMap, List.map_map]
  congr 1
  exact List.map_congr_left fun r _ => f.length_below _ r

/-- Leaving out repetitions shortens a list exactly when it has some. -/
theorem length_eraseDups_le (l : List Nat) : l.eraseDups.length ≤ l.length ∧ (l.eraseDups.length = l.length ↔ l.Nodup) := by
  have hnodup := Grouping.nodup_eraseDups l
  have hsub : l.eraseDups.Subperm l := List.subperm_of_subset hnodup fun i hi => List.mem_eraseDups.1 hi
  refine ⟨hsub.length_le, fun hlen => ?_, fun hl => ?_⟩
  · exact (hsub.perm_of_length_le (Nat.le_of_eq hlen.symm)).nodup_iff.1 hnodup
  · exact ((List.perm_ext_iff_of_nodup hnodup hl).2 fun _ => List.mem_eraseDups).length_eq

/-! ## The walk of a forest without cycles -/

/-- In a forest without cycles the loop comes to its end: after one round for each root and for each child of a node that can be reached the
stack is empty. It has then listed the nodes that can be reached, each once, in the order in which the recursive walk through the unfolded
roots meets them first. So there are at most as many of them as the unfolded roots have nodes, and as many exactly when no node is met
twice. -/
theorem loop_lists_firstOccurrences (hf : f.WellFormed) :
    f.round^[f.rounds f.roots f.walk] f.stacked = ⟨f.preorder.eraseDups, []⟩ ∧ f.walk = f.preorder.eraseDups ∧
      f.walk.Nodup ∧ (∀ i, i ∈ f.walk ↔ f.Reachable i) ∧ f.count ≤ (f.trees.map SyntaxTree.size).sum ∧
      (f.count = (f.trees.map SyntaxTree.size).sum ↔ f.preorder.Nodup) := by
  have hwalk := hf.walk_eq_eraseDups
  have hcount : f.count = f.preorder.eraseDups.length := congrArg List.length hwalk
  obtain ⟨hle, heq⟩ := length_eraseDups_le f.preorder
  refine ⟨?_, hwalk, hf.nodup_walk, hf.mem_walk_iff, ?_, ?_⟩
  · rw [hf.iterate_round_stacked, hwalk]
  · rw [hcount, ← length_preorder]
    exact hle
  · rw [hcount, ← length_preorder]
    exact heq

/-- In the forest with shared nodes nine rounds list the five nodes; its unfolded roots, the first of which is repeated, have twelve. -/
theorem loop_lists_firstOccurrences_shared :
    sharedExample.round^[9] sharedExample.stacked = ⟨[3, 0, 1, 2, 4], []⟩ ∧ sharedExample.walk = [3, 0, 1, 2, 4] ∧
      sharedExample.count ≤ 12 ∧ sharedExample.count ≠ 12 := by
  have hpreorder : sharedExample.preorder = [3, 0, 1, 2, 4, 1, 0, 2, 3, 0, 1, 2] := by decide
  have hfirst : sharedExample.preorder.eraseDups = [3, 0, 1, 2, 4] := by
    rw [hpreorder]
    decide
  have hsize : (sharedExample.trees.map SyntaxTree.size).sum = 12 := by
    rw [← length_preorder, hpreorder]
    rfl
  obtain ⟨hloop, hwalk, _, _, hle, heq⟩ := loop_lists_firstOccurrences (f := sharedExample) (by decide)
  rw [hfirst] at hwalk hloop
  rw [hsize, hpreorder] at heq
  rw [hsize] at hle
  have hrounds : sharedExample.rounds sharedExample.roots sharedExample.walk = 9 := by
    rw [hwalk]
    decide
  rw [hrounds] at hloop
  exact ⟨hloop, hwalk, hle, mt heq.1 (by decide)⟩

end Forest

end TokenForest

import Mathlib.Data.List.Basic

/-!
# Grouping a list by a key

The groups of a list under a key, one for each value of the key in order of first occurrence, hold every element exactly as
often as the list does. Levels are grouped by signature this way, and grids by lane and by row.
-/

namespace TokenForest

/-- In a list without repeated keys an element is the only one with its key. -/
theorem filter_eq_singleton {α κ : Type} [DecidableEq κ] {f : α → κ} {l : List α} {a : α} (hnodup : (l.map f).Nodup)
    (ha : a ∈ l) : l.filter (fun x => decide (f x = f a)) = [a] := by
  induction l with
  | nil => simp at ha
  | cons b l ih =>
    rw [List.map_cons, List.nodup_cons] at hnodup
    rcases List.mem_cons.1 ha with rfl | ha
    · rw [List.filter_cons_of_pos (by simp), List.filter_eq_nil_iff.2]
      intro x hx
      have hne : f x ≠ f a := fun h => hnodup.1 (h ▸ List.mem_map_of_mem hx)
      simpa using hne
    · have hne : f b ≠ f a := fun h => hnodup.1 (h ▸ List.mem_map_of_mem ha)
      rw [List.filter_cons_of_neg (by simpa using hne), ih hnodup.2 ha]

/-- In a table without repeated keys every entry is found under its key. -/
theorem lookup_eq_some_iff_mem {κ α : Type} [BEq κ] [LawfulBEq κ] {l : List (κ × α)} (hnodup : (l.map (·.1)).Nodup) {k : κ} {a : α} :
    l.lookup k = some a ↔ (k, a) ∈ l := by
  induction l with
  | nil => simp
  | cons e l ih =>
    obtain ⟨hnew, hrest⟩ := List.nodup_cons.1 hnodup
    rw [List.lookup_cons, List.mem_cons]
    by_cases hk : k = e.1
    · subst hk
      have hnone : (e.1, a) ∉ l := fun ha => hnew (List.mem_map.2 ⟨_, ha, rfl⟩)
      simp [hnone, Prod.ext_iff, eq_comm]
    · rw [beq_eq_false_iff_ne.2 hk]
      simp [ih hrest, Prod.ext_iff, hk]

/-- In a table without repeated keys what is found under a key does not depend on the order of the entries. -/
theorem lookup_eq_of_perm {κ α : Type} [BEq κ] [LawfulBEq κ] {l l' : List (κ × α)} (hnodup : (l.map (·.1)).Nodup) (h : l.Perm l')
    (k : κ) : l.lookup k = l'.lookup k := by
  ext a
  rw [lookup_eq_some_iff_mem hnodup, lookup_eq_some_iff_mem ((h.map _).nodup_iff.1 hnodup), h.mem_iff]

namespace Grouping

variable {α κ : Type}

/-- The elements with one key are among those that do not have another one. -/
theorem filter_of_ne [DecidableEq κ] (f : α → κ) (l : List α) {k k' : κ} (h : k ≠ k') :
    l.filter (fun a => decide (f a = k)) = (l.filter (fun a => !decide (f a = k'))).filter (fun a => decide (f a = k)) := by
  rw [List.filter_filter]
  apply List.filter_congr
  intro a _
  by_cases ha : f a = k
  · simp [ha, h]
  · simp [ha]

/-- Grouping goes on, after the first group, with the elements of another key. -/
theorem eraseDups_map_cons [BEq κ] [LawfulBEq κ] [DecidableEq κ] (f : α → κ) (x : α) (xs : List α) :
    ((x :: xs).map f).eraseDups = f x :: ((xs.filter (fun a => !decide (f a = f x))).map f).eraseDups := by
  have hothers : (xs.map f).filter (fun k => !k == f x) = (xs.filter (fun a => !decide (f a = f x))).map f := by
    rw [List.filter_map]
    congr 2
    funext a
    by_cases ha : f a = f x <;> simp [ha]
  rw [List.map_cons, List.eraseDups_cons, hothers]

/-- Every key has one group. -/
theorem nodup_eraseDups [BEq κ] [LawfulBEq κ] (l : List κ) : l.eraseDups.Nodup := by
  induction hn : l.length using Nat.strongRecOn generalizing l with
  | ind n ih =>
    cases l with
    | nil => simp
    | cons k ks =>
      have hlen := List.length_filter_le (fun x => !x == k) ks
      rw [List.length_cons] at hn
      rw [List.eraseDups_cons, List.nodup_cons]
      constructor
      · rw [List.mem_eraseDups, List.mem_filter]
        simp
      · exact ih _ (by omega) _ rfl

/-- The keys come in order of first occurrence. -/
theorem eraseDups_sublist [BEq κ] [LawfulBEq κ] (l : List κ) : l.eraseDups.Sublist l := by
  induction hn : l.length using Nat.strongRecOn generalizing l with
  | ind n ih =>
    cases l with
    | nil => simp
    | cons k ks =>
      have hlen := List.length_filter_le (fun x => !x == k) ks
      rw [List.length_cons] at hn
      rw [List.eraseDups_cons]
      exact ((ih _ (by omega) _ rfl).trans List.filter_sublist).cons_cons k

/-- The groups of a list: the first one begins with the first element, and the others are those of the elements of another key. -/
theorem flatMap_groups_cons [BEq κ] [LawfulBEq κ] [DecidableEq κ] (f : α → κ) (x : α) (xs : List α) :
    (((x :: xs).map f).eraseDups.flatMap fun k => (x :: xs).filter (fun a => decide (f a = k))) =
      x :: (xs.filter (fun a => decide (f a = f x)) ++
        ((xs.filter (fun a => !decide (f a = f x))).map f).eraseDups.flatMap fun k =>
          (xs.filter (fun a => !decide (f a = f x))).filter (fun a => decide (f a = k))) := by
  have hgroups : ∀ k ∈ ((xs.filter (fun a => !decide (f a = f x))).map f).eraseDups,
      (x :: xs).filter (fun a => decide (f a = k)) =
        (xs.filter (fun a => !decide (f a = f x))).filter (fun a => decide (f a = k)) := by
    intro k hk
    rw [List.mem_eraseDups, List.mem_map] at hk
    obtain ⟨a, ha, rfl⟩ := hk
    have hne : f a ≠ f x := by simpa using (List.mem_filter.1 ha).2
    rw [List.filter_cons_of_neg (by simpa using Ne.symm hne), filter_of_ne f xs hne]
  rw [eraseDups_map_cons, List.flatMap_cons, List.flatMap_congr hgroups, List.filter_cons_of_pos (by simp), List.cons_append]

/-- The groups of a list put one after the other are the list in another order. -/
theorem flatMap_groups_perm [BEq κ] [LawfulBEq κ] [DecidableEq κ] (f : α → κ) (l : List α) :
    ((l.map f).eraseDups.flatMap fun k => l.filter (fun a => decide (f a = k))).Perm l := by
  induction hn : l.length using Nat.strongRecOn generalizing l with
  | ind n ih =>
    cases l with
    | nil => simp
    | cons x xs =>
      have hlen := List.length_filter_le (fun a => !decide (f a = f x)) xs
      rw [List.length_cons] at hn
      have hrest := ih _ (by omega) (xs.filter (fun a => !decide (f a = f x))) rfl
      rw [flatMap_groups_cons]
      exact ((hrest.append_left _).trans (List.filter_append_perm _ xs)).cons x

/-- In order of their keys, the elements with the least key come first. -/
theorem filter_append_of_pairwise [DecidableEq κ] {f : α → κ} {r : κ → κ → Prop} (hanti : ∀ a b, r a b → r b a → a = b) {k : κ}
    {l : List α} (hleast : ∀ a ∈ l, r k (f a)) (h : l.Pairwise (fun a b => r (f a) (f b))) :
    l.filter (fun a => decide (f a = k)) ++ l.filter (fun a => !decide (f a = k)) = l := by
  induction l with
  | nil => rfl
  | cons x xs ih =>
    obtain ⟨hx, hxs⟩ := List.pairwise_cons.1 h
    by_cases hk : f x = k
    · have hrest := ih (fun a ha => hleast a (by simp [ha])) hxs
      rw [List.filter_cons_of_pos (by simpa using hk), List.filter_cons_of_neg (by simpa using hk), List.cons_append, hrest]
    · have hother : ∀ a ∈ x :: xs, f a ≠ k := by
        intro a ha hak
        rcases List.mem_cons.1 ha with rfl | ha
        · exact hk hak
        · exact hk (hanti _ _ (hak ▸ hx a ha) (hleast x (by simp)))
      rw [List.filter_eq_nil_iff.2 (by simpa using hother), List.filter_eq_self.2 (by simpa using hother), List.nil_append]

/-- The groups of a list in order of its keys put one after the other are the list itself. -/
theorem flatMap_groups_eq [BEq κ] [LawfulBEq κ] [DecidableEq κ] {f : α → κ} {r : κ → κ → Prop}
    (hanti : ∀ a b, r a b → r b a → a = b) {l : List α} (h : l.Pairwise (fun a b => r (f a) (f b))) :
    ((l.map f).eraseDups.flatMap fun k => l.filter (fun a => decide (f a = k))) = l := by
  induction hn : l.length using Nat.strongRecOn generalizing l with
  | ind n ih =>
    cases l with
    | nil => simp
    | cons x xs =>
      obtain ⟨hx, hxs⟩ := List.pairwise_cons.1 h
      have hlen := List.length_filter_le (fun a => !decide (f a = f x)) xs
      rw [List.length_cons] at hn
      have hrest := ih _ (by omega) (hxs.filter (fun a => !decide (f a = f x))) rfl
      rw [flatMap_groups_cons, hrest, filter_append_of_pairwise hanti hx hxs]

/-- The groups of a list under a number below a bound, in ascending order, are the list in another order. -/
theorem flatMap_range_perm {f : α → Nat} {l : List α} {n : Nat} (h : ∀ a ∈ l, f a < n) :
    ((List.range n).flatMap fun k => l.filter (fun a => decide (f a = k))).Perm l := by
  induction n generalizing l with
  | zero =>
    have hnil : l = [] := List.eq_nil_iff_forall_not_mem.2 (fun a ha => absurd (h a ha) (by omega))
    simp [hnil]
  | succ n ih =>
    have hlow : ((List.range n).flatMap fun k => l.filter (fun a => decide (f a = k))) =
        (List.range n).flatMap fun k => (l.filter (fun a => !decide (f a = n))).filter (fun a => decide (f a = k)) := by
      apply List.flatMap_congr
      intro k hk
      exact filter_of_ne f l (Nat.ne_of_lt (List.mem_range.1 hk))
    have hrest : ((List.range n).flatMap fun k =>
        (l.filter (fun a => !decide (f a = n))).filter (fun a => decide (f a = k))).Perm
          (l.filter (fun a => !decide (f a = n))) := by
      apply ih
      intro a ha
      rw [List.mem_filter] at ha
      have h1 := h a ha.1
      have h2 : f a ≠ n := by simpa using ha.2
      omega
    rw [List.range_succ, List.flatMap_append, hlow, List.flatMap_singleton]
    exact (hrest.append_right _).trans (List.perm_append_comm.trans (List.filter_append_perm _ l))

end Grouping

end TokenForest

import Mathlib.Data.List.Induction
import Mathlib.Data.List.Nodup
import TokenForest.Grid.Index
import TokenForest.Proofs.Grid.Placement
import TokenForest.Proofs.Grid.Views

/-!
# The indexes of a grid and its views

A table that is filled with one element after the other holds the groups of the elements by key, so the indexes of a grid hold the
rows and columns that its views read off the cells. The neighbours of a position in its row are the nearest cells on either side.
-/

namespace TokenForest

namespace Grid

namespace Index

/-! ## Tables filled by key -/

section Tables

variable {κ α β : Type} [DecidableEq κ] {keys : List κ} {key : κ}

/-- A key that is entered keeps its place, and its value is changed. -/
theorem update_of_mem (hnodup : keys.Nodup) (h : key ∈ keys) (value : κ → β) (fresh : β) (change : β → β) :
    update key fresh change (keys.map (fun k => (k, value k))) =
      keys.map (fun k => (k, if k = key then change (value k) else value k)) := by
  induction keys with
  | nil => simp at h
  | cons k keys ih =>
    obtain ⟨hk, hkeys⟩ := List.nodup_cons.1 hnodup
    rw [List.map_cons, List.map_cons, update]
    by_cases hkey : k = key
    · subst hkey
      have hrest : ∀ j ∈ keys, (j, value j) = (j, if j = k then change (value j) else value j) := by
        intro j hj
        rw [if_neg (by rintro rfl; exact hk hj)]
      rw [if_pos rfl, if_pos rfl, List.map_congr_left hrest]
    · rw [if_neg hkey, if_neg hkey, ih hkeys (by simpa [Ne.symm hkey] using h)]

/-- A key that is not entered is entered at the end. -/
theorem update_of_notMem (h : key ∉ keys) (value : κ → β) (fresh : β) (change : β → β) :
    update key fresh change (keys.map (fun k => (k, value k))) = keys.map (fun k => (k, value k)) ++ [(key, change fresh)] := by
  induction keys with
  | nil => rfl
  | cons k keys ih =>
    rw [List.mem_cons, not_or] at h
    rw [List.map_cons, update, if_neg (Ne.symm h.1), ih h.2, List.cons_append]

/-- A table filled with one element after the other has the keys in order of first occurrence, each with what its elements make
of a fresh value. -/
theorem foldl_update [BEq κ] [LawfulBEq κ] (f : α → κ) (step : β → α → β) (fresh : β) (l : List α) :
    l.foldl (fun table a => update (f a) fresh (fun value => step value a) table) [] =
      (l.map f).eraseDups.map (fun k => (k, (l.filter (fun a => decide (f a = k))).foldl step fresh)) := by
  induction l using List.reverseRecOn with
  | nil => rfl
  | append_singleton l a ih =>
    have hsame : (l ++ [a]).filter (fun x => decide (f x = f a)) = l.filter (fun x => decide (f x = f a)) ++ [a] := by
      simp
    have hother : ∀ k, k ≠ f a → (l ++ [a]).filter (fun x => decide (f x = k)) = l.filter (fun x => decide (f x = k)) := by
      intro k hk
      simp [Ne.symm hk]
    rw [List.foldl_concat, ih, List.map_append, List.map_singleton, List.eraseDups_append]
    by_cases h : f a ∈ l.map f
    · have hnone : [f a].removeAll (l.map f) = [] := by simp [List.removeAll, List.mem_map.1 h]
      rw [update_of_mem (Grouping.nodup_eraseDups _) (List.mem_eraseDups.2 h), hnone, List.eraseDups_nil, List.append_nil]
      apply List.map_congr_left
      intro k _
      by_cases hk : k = f a
      · rw [hk, if_pos rfl, hsame, List.foldl_concat]
      · rw [if_neg hk, hother k hk]
    · have hnew : [f a].removeAll (l.map f) = [f a] := by
        simp only [List.removeAll, List.filter_cons, List.filter_nil]
        simp [h]
      have hone : [f a].eraseDups = [f a] := by simp [List.eraseDups_cons]
      have hempty : l.filter (fun x => decide (f x = f a)) = [] := by
        rw [List.filter_eq_nil_iff]
        intro x hx
        have hne : f x ≠ f a := fun hfx => h (hfx ▸ List.mem_map_of_mem hx)
        simpa using hne
      rw [update_of_notMem (by rwa [List.mem_eraseDups]), hnew, hone, List.map_append, List.map_singleton, hsame,
        List.foldl_concat, hempty, List.foldl_nil]
      congr 1
      apply List.map_congr_left
      intro k hk
      rw [List.mem_eraseDups] at hk
      rw [hother k (by rintro rfl; exact h hk)]

end Tables

/-! ## What an index holds -/

variable {lineOf : Position → Nat} {ps : List Position}

/-- The lines of some positions: those with each number, in order of first occurrence. -/
def linesOf (lineOf : Position → Nat) (ps : List Position) : Lines :=
  (ps.map lineOf).eraseDups.map (fun n => (n, ps.filter (fun p => decide (lineOf p = n))))

theorem ofPositions_eq (lineOf : Position → Nat) (ps : List Position) : ofPositions lineOf ps =
    (ps.map (·.lane)).eraseDups.map (fun lane => (lane, linesOf lineOf (ps.filter (fun p => decide (p.lane = lane))))) := by
  have hlines : ∀ qs : List Position, qs.foldl (fun lines p => update (lineOf p) [] (· ++ [p]) lines) [] = linesOf lineOf qs := by
    intro qs
    rw [foldl_update lineOf (fun line p => line ++ [p])]
    apply List.map_congr_left
    intro n _
    rw [List.foldl_append_eq_append, List.nil_append, ← List.flatMap_def, List.flatMap_singleton']
  unfold ofPositions add
  rw [foldl_update (·.lane) (fun lines p => update (lineOf p) [] (· ++ [p]) lines)]
  simp only [hlines]

/-- The index with these lanes, their lines and the positions in each. -/
def tabulate (lanes : List Lane) (numbers : Lane → List Nat) (view : Lane → Nat → List Position) : Index :=
  lanes.map (fun lane => (lane, (numbers lane).map (fun n => (n, view lane n))))

section Tabulate

variable {laneList : List Lane} {numbers : Lane → List Nat} {view : Lane → Nat → List Position} {lane : Lane} {n : Nat}

theorem mem_entries_tabulate {p : Position} : (lane, n, p) ∈ (tabulate laneList numbers view).entries ↔
    lane ∈ laneList ∧ n ∈ numbers lane ∧ p ∈ view lane n := by
  simp only [entries, tabulate, List.flatMap_map, List.mem_flatMap, List.mem_map, Prod.mk.injEq]
  constructor
  · rintro ⟨_, hlane, _, hn, _, hp, rfl, rfl, rfl⟩
    exact ⟨hlane, hn, hp⟩
  · rintro ⟨hlane, hn, hp⟩
    exact ⟨lane, hlane, n, hn, p, hp, rfl, rfl, rfl⟩

theorem map_entries_tabulate : (tabulate laneList numbers view).entries.map (·.2.2) =
    laneList.flatMap (fun lane => (numbers lane).flatMap (view lane)) := by
  simp [entries, tabulate, List.flatMap_map, List.map_flatMap, Function.comp_def]

theorem lookup_tabulate : ((tabulate laneList numbers view).lookup lane).getD [] =
    if lane ∈ laneList then (numbers lane).map (fun n => (n, view lane n)) else [] := by
  unfold tabulate
  split
  · rename_i h
    rw [List.lookup_graph _ h, Option.getD_some]
  · rename_i h
    rw [List.lookup_eq_none_iff.2, Option.getD_none]
    simp only [List.mem_map, bne_iff_ne]
    rintro _ ⟨other, hother, rfl⟩ rfl
    exact h hother

theorem lanes_tabulate : (tabulate laneList numbers view).lanes =
    laneList.mergeSort (fun a b => decide (Position.laneKey a ≤ Position.laneKey b)) := by
  simp [lanes, tabulate, Function.comp_def]

theorem lines_tabulate (h : ∀ n ∈ numbers lane, lane ∈ laneList) : (tabulate laneList numbers view).lines lane =
    (numbers lane).mergeSort (fun a b => decide (a ≤ b)) := by
  rw [lines, lookup_tabulate]
  split
  · simp [Function.comp_def]
  · rename_i hlane
    rw [List.eq_nil_iff_forall_not_mem.2 fun n hn => hlane (h n hn)]
    rfl

theorem line_tabulate (h : ∀ p ∈ view lane n, lane ∈ laneList ∧ n ∈ numbers lane) :
    (tabulate laneList numbers view).line lane n = view lane n := by
  rw [line, lookup_tabulate]
  split
  · rename_i hlane
    by_cases hn : n ∈ numbers lane
    · rw [List.lookup_graph _ hn, Option.getD_some]
    · rw [List.eq_nil_iff_forall_not_mem.2 fun p hp => hn (h p hp).2, List.lookup_eq_none_iff.2, Option.getD_none]
      simp only [List.mem_map, bne_iff_ne]
      rintro _ ⟨other, hother, rfl⟩ rfl
      exact hn hother
  · rename_i hlane
    rw [List.eq_nil_iff_forall_not_mem.2 fun p hp => hlane (h p hp).1]
    rfl

end Tabulate

end Index

/-! ## Rows and columns -/

variable {grid : Grid} {lane : Lane} {n : Nat} {p q : Position}

theorem mem_lanes : lane ∈ grid.lanes ↔ ∃ p ∈ grid.positions, p.lane = lane := by
  rw [lanes, List.mem_eraseDups, List.mem_map]

theorem mem_rows : n ∈ grid.rows lane ↔ ∃ p ∈ grid.positions, p.lane = lane ∧ p.row = n := by
  simp [rows, lanePositions, and_assoc]

/-- The columns of a lane in the order in which source comes to them. -/
def columnsMet (grid : Grid) (lane : Lane) : List Nat := ((grid.lanePositions lane).map (·.column)).eraseDups

theorem mem_columnsMet : n ∈ grid.columnsMet lane ↔ ∃ p ∈ grid.positions, p.lane = lane ∧ p.column = n := by
  simp [columnsMet, lanePositions, and_assoc]

theorem mem_columnPositions : p ∈ grid.columnPositions lane n ↔ p ∈ grid.positions ∧ p.lane = lane ∧ p.column = n := by
  simp only [columnPositions, lanePositions, List.mem_filter, decide_eq_true_eq, and_assoc]

/-- The positions of a row come from left to right. -/
theorem pairwise_rowPositions (h : grid.positions.Pairwise Position.Before) :
    (grid.rowPositions lane n).Pairwise (fun p q => p.column < q.column) := by
  refine ((h.filter _).filter _).imp_of_mem ?_
  intro p q hp hq hpq
  obtain ⟨_, hplane, hprow⟩ := mem_rowPositions.1 hp
  obtain ⟨_, hqlane, hqrow⟩ := mem_rowPositions.1 hq
  rcases hpq with hlane | ⟨_, hrow | ⟨_, hcolumn⟩⟩
  · rw [hplane, hqlane] at hlane
    omega
  · omega
  · exact hcolumn

/-- The positions of a column come from top to bottom. -/
theorem pairwise_columnPositions (h : grid.positions.Pairwise Position.Before) :
    (grid.columnPositions lane n).Pairwise (fun p q => p.row < q.row) := by
  refine ((h.filter _).filter _).imp_of_mem ?_
  intro p q hp hq hpq
  obtain ⟨_, hplane, hpcolumn⟩ := mem_columnPositions.1 hp
  obtain ⟨_, hqlane, hqcolumn⟩ := mem_columnPositions.1 hq
  rcases hpq with hlane | ⟨_, hrow | ⟨_, hcolumn⟩⟩
  · rw [hplane, hqlane] at hlane
    omega
  · exact hrow
  · omega

/-- The lanes come in order. -/
theorem pairwise_lanes (h : grid.positions.Pairwise Position.Before) :
    grid.lanes.Pairwise (fun a b => Position.laneKey a ≤ Position.laneKey b) := by
  refine List.Pairwise.sublist (Grouping.eraseDups_sublist _) (List.pairwise_map.2 (h.imp ?_))
  intro p q hpq
  rcases hpq with hlane | ⟨hlane, _⟩
  · exact Int.le_of_lt hlane
  · exact Int.le_of_eq (congrArg _ hlane)

/-- The rows of a lane come from top to bottom. -/
theorem pairwise_rows (h : grid.positions.Pairwise Position.Before) : (grid.rows lane).Pairwise (· ≤ ·) := by
  refine List.Pairwise.sublist (Grouping.eraseDups_sublist _) (List.pairwise_map.2 ((h.filter _).imp_of_mem ?_))
  intro p q hp hq hpq
  have hplane : p.lane = lane := by simpa using (List.mem_filter.1 hp).2
  have hqlane : q.lane = lane := by simpa using (List.mem_filter.1 hq).2
  rcases hpq with hlane | ⟨_, hrow | ⟨hrow, _⟩⟩
  · rw [hplane, hqlane] at hlane
    omega
  · omega
  · omega

/-! ## The indexes -/

/-- The index of the rows holds the views of the rows. -/
theorem rowIndex_eq (grid : Grid) : grid.rowIndex = Index.tabulate grid.lanes grid.rows grid.rowPositions :=
  Index.ofPositions_eq _ _

/-- The index of the columns holds the views of the columns: in source order no column has to be sorted. -/
theorem columnIndex_eq (h : grid.positions.Pairwise Position.Before) :
    grid.columnIndex = Index.tabulate grid.lanes grid.columnsMet grid.columnPositions := by
  have hmet : Index.ofPositions (·.column) grid.positions = Index.tabulate grid.lanes grid.columnsMet grid.columnPositions :=
    Index.ofPositions_eq _ _
  have hsorted : ∀ lane n, (grid.columnPositions lane n).mergeSort (fun p q => decide (p.row ≤ q.row)) =
      grid.columnPositions lane n := by
    intro lane n
    apply List.mergeSort_of_pairwise
    exact (pairwise_columnPositions h).imp fun hrow => by simpa using Nat.le_of_lt hrow
  rw [columnIndex, hmet]
  simp [Index.sortLines, Index.tabulate, Function.comp_def, hsorted]

/-! ## Views of the indexes -/

theorem lanes_eq_rowIndex (h : grid.positions.Pairwise Position.Before) : grid.lanes = grid.rowIndex.lanes := by
  rw [rowIndex_eq, Index.lanes_tabulate, List.mergeSort_of_pairwise]
  simpa using pairwise_lanes h

theorem rows_eq_rowIndex (h : grid.positions.Pairwise Position.Before) : grid.rows lane = grid.rowIndex.lines lane := by
  rw [rowIndex_eq, Index.lines_tabulate, List.mergeSort_of_pairwise]
  · simpa using pairwise_rows h
  · intro row hrow
    obtain ⟨p, hp, hlane, _⟩ := mem_rows.1 hrow
    exact mem_lanes.2 ⟨p, hp, hlane⟩

theorem rowPositions_eq_rowIndex (grid : Grid) : grid.rowPositions = grid.rowIndex.line := by
  funext lane row
  rw [rowIndex_eq, Index.line_tabulate]
  intro p hp
  obtain ⟨hp, hlane, hrow⟩ := mem_rowPositions.1 hp
  exact ⟨mem_lanes.2 ⟨p, hp, hlane⟩, mem_rows.2 ⟨p, hp, hlane, hrow⟩⟩

theorem columns_eq_columnIndex (h : grid.positions.Pairwise Position.Before) : grid.columns lane = grid.columnIndex.lines lane := by
  rw [columnIndex_eq h, Index.lines_tabulate]
  · rfl
  · intro column hcolumn
    obtain ⟨p, hp, hlane, _⟩ := mem_columnsMet.1 hcolumn
    exact mem_lanes.2 ⟨p, hp, hlane⟩

theorem columnPositions_eq_columnIndex (h : grid.positions.Pairwise Position.Before) :
    grid.columnPositions lane n = grid.columnIndex.line lane n := by
  rw [columnIndex_eq h, Index.line_tabulate]
  intro p hp
  obtain ⟨hp, hlane, hcolumn⟩ := mem_columnPositions.1 hp
  exact ⟨mem_lanes.2 ⟨p, hp, hlane⟩, mem_columnsMet.2 ⟨p, hp, hlane, hcolumn⟩⟩

/-! ## What the indexes hold -/

/-- An index of views holds every position once when the views do. -/
theorem Index.holds_tabulate {numbers : Lane → List Nat} {view : Lane → Nat → List Position} {lineOf across : Position → Nat}
    (hnumbers : ∀ lane, (numbers lane).Nodup)
    (hperm : (grid.lanes.flatMap (fun lane => (numbers lane).flatMap (view lane))).Perm grid.positions)
    (hnodup : grid.positions.Nodup) (hview : ∀ lane n p, p ∈ view lane n ↔ p ∈ grid.positions ∧ p.lane = lane ∧ lineOf p = n)
    (hmem : ∀ lane n, n ∈ numbers lane ↔ ∃ p ∈ grid.positions, p.lane = lane ∧ lineOf p = n)
    (hascending : ∀ lane n, (view lane n).Pairwise (fun p q => across p < across q)) :
    (Index.tabulate grid.lanes numbers view).Holds grid lineOf across := by
  refine ⟨⟨?_, ?_⟩, ?_, ?_, ?_⟩
  · have hlanes : grid.lanes.Nodup := Grouping.nodup_eraseDups _
    simpa [tabulate, Function.comp_def] using hlanes
  · intro e he
    obtain ⟨lane, _, rfl⟩ := List.mem_map.1 he
    simpa [Function.comp_def] using hnumbers lane
  · apply List.Nodup.of_map (·.2.2)
    rw [map_entries_tabulate]
    exact hperm.nodup_iff.2 hnodup
  · intro lane n p
    rw [mem_entries_tabulate, mem_lanes, hmem, hview, occupied_iff]
    constructor
    · exact fun h => h.2.2
    · rintro ⟨hp, hlane, hline⟩
      exact ⟨⟨p, hp, hlane⟩, ⟨p, hp, hlane, hline⟩, hp, hlane, hline⟩
  · intro e he line hline
    obtain ⟨lane, _, rfl⟩ := List.mem_map.1 he
    obtain ⟨n, _, rfl⟩ := List.mem_map.1 hline
    exact hascending lane n

theorem holds_rowIndex (hnodup : grid.positions.Nodup) (h : grid.positions.Pairwise Position.Before) :
    grid.rowIndex.Holds grid (·.row) (·.column) := by
  rw [rowIndex_eq]
  exact Index.holds_tabulate (fun lane => Grouping.nodup_eraseDups _) (flatMap_lanes_perm grid) hnodup
    (fun _ _ _ => mem_rowPositions) (fun _ _ => mem_rows) (fun _ _ => pairwise_rowPositions h)

theorem holds_columnIndex (hnodup : grid.positions.Nodup) (h : grid.positions.Pairwise Position.Before) :
    grid.columnIndex.Holds grid (·.column) (·.row) := by
  have hperm : (grid.lanes.flatMap (fun lane => (grid.columnsMet lane).flatMap (grid.columnPositions lane))).Perm grid.positions :=
    (List.Perm.flatMap_left _ fun lane _ => Grouping.flatMap_groups_perm (·.column) (grid.lanePositions lane)).trans
      (Grouping.flatMap_groups_perm (·.lane) grid.positions)
  rw [columnIndex_eq h]
  exact Index.holds_tabulate (fun lane => Grouping.nodup_eraseDups _) hperm hnodup
    (fun _ _ _ => mem_columnPositions) (fun _ _ => mem_columnsMet) (fun _ _ => pairwise_columnPositions h)

/-! ## Neighbours -/

/-- What stands around an element of a list without a second one. -/
theorem around_append {front back : List Position} (h : p ∉ front) :
    around p (front ++ p :: back) = (front.getLast?, back.head?) := by
  have hindex : (front ++ p :: back).idxOf? p = some front.length := by
    rw [List.idxOf?_eq_some_iff]
    refine ⟨by simp, by simp, ?_⟩
    intro j hj hjp
    rw [List.getElem_append_left hj] at hjp
    exact h (hjp ▸ List.getElem_mem hj)
  have hafter : (front ++ p :: back)[front.length + 1]? = back.head? := by
    rw [List.getElem?_append_right (by omega), List.head?_eq_getElem?]
    simp
  have hbefore : (if front.length = 0 then none else (front ++ p :: back)[front.length - 1]?) = front.getLast? := by
    split
    · rename_i hnil
      rw [List.length_eq_zero_iff.1 hnil, List.getLast?_nil]
    · rw [List.getElem?_append_left (by omega), List.getLast?_eq_getElem?]
  rw [around, hindex]
  exact Prod.ext hbefore hafter

theorem around_of_notMem {row : List Position} (h : p ∉ row) : around p row = (none, none) := by
  rw [around, List.idxOf?_eq_none_iff.2 h]

/-- The last element of an ascending list is its greatest one. -/
theorem getLast?_eq_some_iff_of_pairwise {α : Type} {f : α → Nat} {l : List α} (h : l.Pairwise (fun a b => f a < f b)) {a : α} :
    l.getLast? = some a ↔ a ∈ l ∧ ∀ b ∈ l, f b ≤ f a := by
  have hgreatest : ∀ {init : List α} {z : α}, l = init ++ [z] → ∀ b ∈ init, f b < f z := by
    rintro init z rfl b hb
    exact (List.pairwise_append.1 h).2.2 b hb z (by simp)
  constructor
  · intro ha
    obtain ⟨init, hinit⟩ := List.getLast?_eq_some_iff.1 ha
    refine ⟨by simp [hinit], fun b hb => ?_⟩
    rw [hinit] at hb
    rcases List.mem_append.1 hb with hb | hb
    · exact Nat.le_of_lt (hgreatest hinit b hb)
    · exact Nat.le_of_eq (by rw [List.mem_singleton.1 hb])
  · rintro ⟨ha, hle⟩
    obtain ⟨z, hz⟩ : ∃ z, l.getLast? = some z := ⟨_, List.getLast?_eq_some_getLast (List.ne_nil_of_mem ha)⟩
    obtain ⟨init, hinit⟩ := List.getLast?_eq_some_iff.1 hz
    have hza := hle z (by simp [hinit])
    rw [hinit] at ha
    rcases List.mem_append.1 ha with ha | ha
    · have hlt := hgreatest hinit a ha
      omega
    · rw [hz, List.mem_singleton.1 ha]

/-- The first element of an ascending list is its least one. -/
theorem head?_eq_some_iff_of_pairwise {α : Type} {f : α → Nat} {l : List α} (h : l.Pairwise (fun a b => f a < f b)) {a : α} :
    l.head? = some a ↔ a ∈ l ∧ ∀ b ∈ l, f a ≤ f b := by
  cases l with
  | nil => simp
  | cons z rest =>
    have hleast := (List.pairwise_cons.1 h).1
    rw [List.head?_cons, Option.some.injEq]
    constructor
    · rintro rfl
      refine ⟨by simp, fun b hb => ?_⟩
      rcases List.mem_cons.1 hb with rfl | hb
      · exact Nat.le_refl _
      · exact Nat.le_of_lt (hleast b hb)
    · rintro ⟨ha, hle⟩
      have hza := hle z (by simp)
      rcases List.mem_cons.1 ha with rfl | ha
      · rfl
      · have hlt := hleast a ha
        omega

/-- The row of an occupied position: what stands on its left, the position, and what stands on its right. -/
theorem exists_row_split (h : grid.positions.Pairwise Position.Before) (hp : grid.occupied p = true) :
    ∃ front back : List Position, grid.beside p = (front.getLast?, back.head?) ∧
      front.Pairwise (fun a b => a.column < b.column) ∧ back.Pairwise (fun a b => a.column < b.column) ∧
      (∀ q, q ∈ front ↔ grid.OnLeft p q) ∧ ∀ q, q ∈ back ↔ grid.OnRight p q := by
  obtain ⟨front, back, hrow, hfront⟩ := List.eq_append_cons_of_mem (mem_rowPositions.2 ⟨occupied_iff.1 hp, rfl, rfl⟩)
  have hascending : (grid.rowPositions p.lane p.row).Pairwise (fun a b => a.column < b.column) := pairwise_rowPositions h
  rw [hrow, List.pairwise_append, List.pairwise_cons] at hascending
  obtain ⟨hleft, ⟨hafter, hright⟩, hacross⟩ := hascending
  have hbefore : ∀ q ∈ front, q.column < p.column := fun q hq => hacross q hq p (by simp)
  have hmem : ∀ q, q ∈ front ∨ q = p ∨ q ∈ back ↔ grid.occupied q = true ∧ q.lane = p.lane ∧ q.row = p.row := by
    intro q
    rw [occupied_iff, ← mem_rowPositions, hrow, List.mem_append, List.mem_cons]
  refine ⟨front, back, ?_, hleft, hright, fun q => ⟨fun hq => ?_, fun hq => ?_⟩, fun q => ⟨fun hq => ?_, fun hq => ?_⟩⟩
  · rw [beside, hrow, around_append hfront]
  · obtain ⟨hoccupied, hlane, hrow⟩ := (hmem q).1 (Or.inl hq)
    exact ⟨hoccupied, hlane, hrow, hbefore q hq⟩
  · rcases (hmem q).2 ⟨hq.occupied, hq.lane, hq.row⟩ with hfront | rfl | hback
    · exact hfront
    · exact absurd hq.column (Nat.lt_irrefl _)
    · exact absurd (hafter q hback) (Nat.lt_asymm hq.column)
  · obtain ⟨hoccupied, hlane, hrow⟩ := (hmem q).1 (Or.inr (Or.inr hq))
    exact ⟨hoccupied, hlane, hrow, hafter q hq⟩
  · rcases (hmem q).2 ⟨hq.occupied, hq.lane, hq.row⟩ with hfront | rfl | hback
    · exact absurd (hbefore q hfront) (Nat.lt_asymm hq.column)
    · exact absurd hq.column (Nat.lt_irrefl _)
    · exact hback

/-- The left neighbour of an occupied position is the nearest cell on its left; it has none exactly when there is no such cell. -/
theorem beside_left (h : grid.positions.Pairwise Position.Before) (hp : grid.occupied p = true) :
    (∀ q, (grid.beside p).1 = some q ↔ grid.NearestLeft p q) ∧ ((grid.beside p).1 = none ↔ ∀ q, ¬grid.OnLeft p q) := by
  obtain ⟨front, back, hbeside, hleft, _, hfront, _⟩ := exists_row_split h hp
  rw [hbeside]
  constructor
  · intro q
    simp only [getLast?_eq_some_iff_of_pairwise hleft, hfront, NearestLeft]
  · simp only [List.getLast?_eq_none_iff, List.eq_nil_iff_forall_not_mem, hfront]

/-- The right neighbour of an occupied position is the nearest cell on its right; it has none exactly when there is no such cell. -/
theorem beside_right (h : grid.positions.Pairwise Position.Before) (hp : grid.occupied p = true) :
    (∀ q, (grid.beside p).2 = some q ↔ grid.NearestRight p q) ∧ ((grid.beside p).2 = none ↔ ∀ q, ¬grid.OnRight p q) := by
  obtain ⟨front, back, hbeside, _, hright, _, hback⟩ := exists_row_split h hp
  rw [hbeside]
  constructor
  · intro q
    simp only [head?_eq_some_iff_of_pairwise hright, hback, NearestRight]
  · simp only [List.head?_eq_none_iff, List.eq_nil_iff_forall_not_mem, hback]

/-- An empty cell has no neighbours. -/
theorem beside_of_not_occupied (hp : grid.occupied p ≠ true) : grid.beside p = (none, none) := by
  rw [beside, around_of_notMem]
  intro hmem
  exact hp (occupied_iff.2 (mem_rowPositions.1 hmem).1)

/-- Of two cells the one is nearest on the right of the other exactly when that is nearest on its left. -/
theorem nearestRight_iff (hp : grid.occupied p = true) (hq : grid.occupied q = true) :
    grid.NearestRight p q ↔ grid.NearestLeft q p := by
  constructor
  · rintro ⟨⟨_, hlane, hrow, hcolumn⟩, hnearest⟩
    refine ⟨⟨hp, hlane.symm, hrow.symm, hcolumn⟩, fun r hr => Nat.not_lt.1 fun hlt => ?_⟩
    have hle := hnearest r ⟨hr.occupied, hr.lane.trans hlane, hr.row.trans hrow, hlt⟩
    exact absurd hr.column (Nat.not_lt.2 hle)
  · rintro ⟨⟨_, hlane, hrow, hcolumn⟩, hnearest⟩
    refine ⟨⟨hq, hlane.symm, hrow.symm, hcolumn⟩, fun r hr => Nat.not_lt.1 fun hlt => ?_⟩
    have hle := hnearest r ⟨hr.occupied, hr.lane.trans hlane, hr.row.trans hrow, hlt⟩
    exact absurd hr.column (Nat.not_lt.2 hle)

/-- A position is the right neighbour of another one exactly when that is its left neighbour. -/
theorem beside_right_iff (h : grid.positions.Pairwise Position.Before) :
    (grid.beside p).2 = some q ↔ (grid.beside q).1 = some p := by
  by_cases hp : grid.occupied p = true
  · by_cases hq : grid.occupied q = true
    · rw [(beside_right h hp).1, (beside_left h hq).1, nearestRight_iff hp hq]
    · rw [(beside_right h hp).1, beside_of_not_occupied hq]
      exact ⟨fun hright => absurd hright.1.occupied hq, by simp⟩
  · rw [beside_of_not_occupied hp]
    refine ⟨by simp, fun hleft => ?_⟩
    by_cases hq : grid.occupied q = true
    · exact absurd ((beside_left h hq).1 p |>.1 hleft).1.occupied hp
    · rw [beside_of_not_occupied hq] at hleft
      cases hleft

theorem mem_aboveBelow : q ∈ grid.aboveBelow p ↔ grid.occupied q = true ∧ q.lane = p.lane ∧ q.column = p.column ∧
    (q.row + 1 = p.row ∨ q.row = p.row + 1) := by
  obtain ⟨row, column, lane⟩ := p
  obtain ⟨qrow, qcolumn, qlane⟩ := q
  cases row with
  | zero => simp [aboveBelow, and_comm, and_left_comm, and_assoc]
  | succ row =>
    simp only [aboveBelow, Nat.add_one_ne_zero, if_false, Nat.add_sub_cancel, List.mem_filter, List.mem_append, List.mem_singleton,
      Position.mk.injEq, Nat.add_right_cancel_iff]
    constructor
    · rintro ⟨⟨rfl, rfl, rfl⟩ | ⟨rfl, rfl, rfl⟩, hoccupied⟩
      · exact ⟨hoccupied, rfl, rfl, Or.inl rfl⟩
      · exact ⟨hoccupied, rfl, rfl, Or.inr rfl⟩
    · rintro ⟨hoccupied, rfl, rfl, rfl | rfl⟩
      · exact ⟨Or.inl ⟨rfl, rfl, rfl⟩, hoccupied⟩
      · exact ⟨Or.inr ⟨rfl, rfl, rfl⟩, hoccupied⟩

theorem mem_counterparts : q ∈ grid.counterparts p ↔ grid.staged = true ∧ grid.occupied q = true ∧ q.row = p.row ∧
    q.column = p.column ∧ q.lane ≠ p.lane := by
  unfold counterparts
  split
  · rename_i hstaged
    simp only [List.mem_filter, List.mem_map, decide_eq_true_eq, hstaged, true_and]
    constructor
    · rintro ⟨⟨lane, ⟨_, hlane⟩, rfl⟩, hoccupied⟩
      exact ⟨hoccupied, rfl, rfl, hlane⟩
    · rintro ⟨hoccupied, hrow, hcolumn, hlane⟩
      refine ⟨⟨q.lane, ⟨mem_lanes.2 ⟨q, occupied_iff.1 hoccupied, rfl⟩, hlane⟩, ?_⟩, hoccupied⟩
      rw [← hrow, ← hcolumn]
  · rename_i hstaged
    simp [hstaged]

/-! ## Grids of streams -/

variable {records : List TokenRecord} {staged : Bool} {grammar : Grammar}

/-- The indexes of the grid of a stream are faithful to its cells. -/
theorem organize_indexed (h : organize records staged grammar = .ok grid) : grid.Indexed := by
  have hnodup := nodup_positions h
  have hordered : grid.positions.Pairwise Position.Before := pairwise_before h
  have hrow : ∀ lane row, grid.rowPositions lane row = grid.rowIndex.line lane row := by
    intro lane row
    rw [rowPositions_eq_rowIndex]
  refine ⟨⟨hordered, fun p => occupied_iff.symm⟩, holds_rowIndex hnodup hordered, holds_columnIndex hnodup hordered, ?_,
    ⟨lanes_eq_rowIndex hordered, fun lane => rows_eq_rowIndex hordered, hrow⟩,
    ⟨fun lane => columns_eq_columnIndex hordered, fun lane column => columnPositions_eq_columnIndex hordered⟩,
    fun p hp => beside_left hordered hp, fun p hp => beside_right hordered hp, fun p q => beside_right_iff hordered, ?_, ?_⟩
  · simp only [← lanes_eq_rowIndex hordered, ← rows_eq_rowIndex hordered, ← rowPositions_eq_rowIndex]
    exact flatMap_lanes_eq (pairwise_positions h)
  · intro p q hp hq
    rw [mem_aboveBelow, mem_aboveBelow, hp, hq, eq_comm (a := q.lane), eq_comm (a := q.column), or_comm,
      eq_comm (a := q.row), eq_comm (a := q.row + 1)]
  · intro p q hp hq
    rw [mem_counterparts, mem_counterparts, hp, hq, eq_comm (a := q.row), eq_comm (a := q.column), ne_comm]

/-- Four records of two processes, of which one comes back to the left of its row. -/
def latticeRecords : List TokenRecord := [
  ⟨.terminal, "identifier", "a", some 0, some 2, some 1, none, none, "", 1⟩,
  ⟨.terminal, "identifier", "b", some 0, some 0, some 0, none, none, "", 1⟩,
  ⟨.terminal, "identifier", "c", none, some 0, some 1, none, none, "", 1⟩,
  ⟨.terminal, "identifier", "d", some 1, some 2, some 1, none, none, "", 1⟩]

/-- The symbol of one of the records. -/
def latticeSymbol (number : Nat) (lexeme : String) (p : Position) : Position × Symbol :=
  (p, ⟨symbolName number p, .terminal, lexeme, "identifier", .identifier, 1, none, p.lane.map Int.ofNat, none⟩)

/-- The grid of the four records. -/
def latticeGrid : Grid where
  staged := true
  cells := [latticeSymbol 2 "b" ⟨0, 0, some 0⟩, latticeSymbol 3 "c" ⟨0, 0, some 1⟩, latticeSymbol 1 "a" ⟨0, 2, some 1⟩,
    latticeSymbol 4 "d" ⟨1, 2, some 1⟩]

theorem organize_latticeRecords : organize latticeRecords latticeGrid.staged .default = .ok latticeGrid := by
  have hplaced : placeAll latticeGrid.staged .default [] 1 latticeRecords =
      .ok [latticeSymbol 4 "d" ⟨1, 2, some 1⟩, latticeSymbol 3 "c" ⟨0, 0, some 1⟩, latticeSymbol 2 "b" ⟨0, 0, some 0⟩,
        latticeSymbol 1 "a" ⟨0, 2, some 1⟩] := by decide +kernel
  exact organize_of_perm hplaced (by decide +kernel) (by decide +kernel) (by decide +kernel)

/-- The indexes of the grid of the four records are faithful: the third record stands on the left of the first. -/
theorem organize_indexed_lattice : organize latticeRecords true .default = .ok latticeGrid ∧ latticeGrid.Indexed ∧
    (latticeGrid.beside ⟨0, 0, some 1⟩).2 = some ⟨0, 2, some 1⟩ := by
  have hindexed : latticeGrid.Indexed := organize_indexed organize_latticeRecords
  refine ⟨organize_latticeRecords, hindexed, ?_⟩
  decide +kernel

end Grid

end TokenForest

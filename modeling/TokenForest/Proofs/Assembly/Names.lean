import TokenForest.Proofs.Assembly.Matching
import TokenForest.Proofs.Position

/-!
# The names of nodes

A node is named by its sort and its position, a statement by its lane and row. Names of one sort are told apart by the numbers in
them, and names of different sorts by their first character, so all names that a grid has to give are different.
-/

namespace TokenForest

namespace Assembly

variable {grid : Grid} {decisions : List Decision}

/-! ## Names of statements -/

/-- The number of a lane in the names of its statements; nothing for the lane of no process. -/
def laneDigits : Lane → List Char
  | none => []
  | some l => (toString l).toList

theorem toList_statementId (lane : Lane) (row : Nat) :
    (statementId lane row).toList = 's' :: '_' :: (laneDigits lane ++ '_' :: (toString row).toList) := by
  have hnone : (toString "s__").toList = ['s', '_', '_'] := rfl
  have hsome : (toString "s_").toList = ['s', '_'] := rfl
  have hbetween : (toString "_").toList = ['_'] := rfl
  cases lane with
  | none => simp [statementId, laneDigits, hnone]
  | some l => simp [statementId, laneDigits, hsome, hbetween]

theorem laneDigits_injective {lane lane' : Lane} (h : laneDigits lane = laneDigits lane') : lane = lane' := by
  have hdigits : ∀ l : Nat, (toString l).toList ≠ [] := by
    intro l
    rw [Position.toList_toString]
    exact Nat.toDigits_ne_nil
  cases lane with
  | none =>
    cases lane' with
    | none => rfl
    | some l' => exact absurd h.symm (hdigits l')
  | some l =>
    cases lane' with
    | none => exact absurd h (hdigits l)
    | some l' => exact congrArg some (Position.toList_toString_inj h)

/-- Statements of different rows or lanes have different names. -/
theorem statementId_injective {lane lane' : Lane} {row row' : Nat} (h : statementId lane row = statementId lane' row') :
    lane = lane' ∧ row = row' := by
  have htexts := congrArg String.toList h
  rw [toList_statementId, toList_statementId, List.cons.injEq, List.cons.injEq] at htexts
  have hdigits : ∀ lane, ∀ c ∈ laneDigits lane, c.isDigit = true := by
    intro lane c hc
    cases lane with
    | none => simp [laneDigits] at hc
    | some l => exact Position.isDigit_of_mem_toString hc
  obtain ⟨hlane, _, hrow⟩ := Position.digits_unique (hdigits lane) (hdigits lane') rfl rfl htexts.2.2
  exact ⟨laneDigits_injective hlane, Position.toList_toString_inj hrow⟩

/-! ## Names at a position -/

/-- The names that the nodes at a symbol may have: those of its terminal, of a group and of a block opened there. -/
def symbolNames (p : Position) : List String := [s!"t_{p.label}", s!"g_{p.label}", blockId p]

theorem sort_of_mem_symbolNames {x : String} {p : Position} (h : x ∈ symbolNames p) :
    ∃ sort ∈ ["t_", "g_", "b_"], x = sort ++ p.label := by
  simp only [symbolNames, List.mem_cons, List.not_mem_nil, or_false] at h
  rcases h with rfl | rfl | rfl
  · exact ⟨"t_", by simp, rfl⟩
  · exact ⟨"g_", by simp, rfl⟩
  · exact ⟨"b_", by simp, rfl⟩

/-- The name of a node tells where its symbol stands. -/
theorem position_of_name {x : String} {p q : Position} (hp : x ∈ symbolNames p) (hq : x ∈ symbolNames q) : p = q := by
  obtain ⟨sort, hsort, hx⟩ := sort_of_mem_symbolNames hp
  obtain ⟨sort', hsort', hx'⟩ := sort_of_mem_symbolNames hq
  have hlength : ∀ s ∈ ["t_", "g_", "b_"], s.toList.length = 2 := by decide
  have htexts := congrArg String.toList (hx.symm.trans hx')
  rw [String.toList_append, String.toList_append] at htexts
  obtain ⟨_, hlabels⟩ := List.append_inj htexts ((hlength sort hsort).trans (hlength sort' hsort').symm)
  exact Position.label_injective (String.toList_inj.1 hlabels)

/-- The nodes at a symbol have different names. -/
theorem nodup_symbolNames (p : Position) : (symbolNames p).Nodup := by
  have hgroup : s!"t_{p.label}" ≠ s!"g_{p.label}" := ne_of_head? (head?_append rfl) (head?_append rfl) (show 't' ≠ 'g' by decide)
  have hblock : s!"t_{p.label}" ≠ blockId p := ne_of_head? (head?_append rfl) (head?_append rfl) (show 't' ≠ 'b' by decide)
  have hboth : s!"g_{p.label}" ≠ blockId p := ne_of_head? (head?_append rfl) (head?_append rfl) (show 'g' ≠ 'b' by decide)
  rw [symbolNames, List.nodup_cons, List.nodup_cons, List.mem_cons, List.mem_singleton, List.mem_singleton]
  exact ⟨not_or.2 ⟨hgroup, hblock⟩, hboth, List.nodup_singleton _⟩

/-- No node at a symbol has the name of a statement. -/
theorem ne_statementId {x : String} {p : Position} (h : x ∈ symbolNames p) (lane : Lane) (row : Nat) :
    x ≠ statementId lane row := by
  obtain ⟨sort, hsort, rfl⟩ := sort_of_mem_symbolNames h
  have hhead : ∀ s ∈ ["t_", "g_", "b_"], ∃ c, s.toList.head? = some c ∧ c ≠ 's' := by
    simp only [List.mem_cons, List.not_mem_nil, or_false, forall_eq_or_imp, forall_eq]
    exact ⟨⟨'t', rfl, by decide⟩, ⟨'g', rfl, by decide⟩, ⟨'b', rfl, by decide⟩⟩
  obtain ⟨c, hc, hne⟩ := hhead sort hsort
  exact ne_of_head? (head?_append hc) (head?_statementId lane row) hne

/-! ## Names of a grid -/

/-- A node of this row may have the name. -/
def NamedIn (lane : Lane) (row : Nat) (x : String) : Prop :=
  x = statementId lane row ∨ ∃ p : Position, p.lane = lane ∧ p.row = row ∧ x ∈ symbolNames p

/-- The name of a node tells its lane and its row. -/
theorem NamedIn.unique {lane lane' : Lane} {row row' : Nat} {x : String} (h : NamedIn lane row x) (h' : NamedIn lane' row' x) :
    lane = lane' ∧ row = row' := by
  rcases h with rfl | ⟨p, rfl, rfl, hp⟩
  · rcases h' with h' | ⟨q, rfl, rfl, hq⟩
    · exact statementId_injective h'
    · exact absurd rfl (ne_statementId hq _ _)
  · rcases h' with rfl | ⟨q, rfl, rfl, hq⟩
    · exact absurd rfl (ne_statementId hp _ _)
    · rw [position_of_name hp hq]
      exact ⟨rfl, rfl⟩

/-- The names that a row has to give: one for its statement, and those at its symbols. -/
def rowNames (lane : Lane) (entry : Nat × List Admitted) : List String :=
  statementId lane entry.1 :: entry.2.flatMap (fun item => symbolNames item.position)

/-- The names that a lane has to give. -/
def laneNames (lane : Lane) (rows : List (Nat × List Admitted)) : List String := rows.flatMap (rowNames lane)

/-- The names that a grid has to give. -/
def gridNames (decisions : List Decision) (grid : Grid) : List String :=
  grid.lanes.flatMap (fun lane => laneNames lane (admittedRows grid decisions lane))

/-- Lists made of elements with different keys have nothing twice when none of them has, and each member tells the key. -/
theorem nodup_flatMap_of_keys {α β κ : Type} {l : List α} {f : α → List β} {key : α → κ} (hkeys : (l.map key).Nodup)
    (hf : ∀ a ∈ l, (f a).Nodup) (htell : ∀ a ∈ l, ∀ b ∈ l, ∀ x ∈ f a, x ∈ f b → key a = key b) : (l.flatMap f).Nodup := by
  refine List.nodup_flatMap.2 ⟨hf, (List.pairwise_map.1 hkeys).imp_of_mem ?_⟩
  intro a b ha hb hne x hxa hxb
  exact hne (htell a ha b hb x hxa hxb)

/-- The names of a row belong to the row. -/
theorem namedIn_of_mem_rowNames {lane : Lane} {entry : Nat × List Admitted} (hentry : entry ∈ admittedRows grid decisions lane)
    {x : String} (hx : x ∈ rowNames lane entry) : NamedIn lane entry.1 x := by
  rcases List.mem_cons.1 hx with rfl | hx
  · exact Or.inl rfl
  · obtain ⟨item, hitem, hx⟩ := List.mem_flatMap.1 hx
    obtain ⟨hlane, hrow⟩ := place_of_mem_admittedRows hentry item hitem
    exact Or.inr ⟨item.position, hlane, hrow, hx⟩

/-- The names that a row has to give are different. -/
theorem nodup_rowNames {lane : Lane} {entry : Nat × List Admitted} (h : (entry.2.map (·.position)).Nodup) :
    (rowNames lane entry).Nodup := by
  refine List.nodup_cons.2 ⟨?_, nodup_flatMap_of_keys h (fun item _ => nodup_symbolNames _) ?_⟩
  · intro hmem
    obtain ⟨item, _, hx⟩ := List.mem_flatMap.1 hmem
    exact ne_statementId hx lane entry.1 rfl
  · intro item _ other _ x hx hx'
    exact position_of_name hx hx'

/-- The names that a lane has to give are different. -/
theorem nodup_laneNames (hnodup : grid.positions.Nodup) {lane : Lane} (hlane : lane ∈ grid.lanes) :
    (laneNames lane (admittedRows grid decisions lane)).Nodup := by
  have hpositions : (((admittedRows grid decisions lane).flatMap (·.2)).map (·.position)).Nodup := nodup_lane hnodup hlane
  rw [List.map_flatMap, List.nodup_flatMap] at hpositions
  refine nodup_flatMap_of_keys (nodup_admittedRows lane) (fun entry hentry => nodup_rowNames (hpositions.1 entry hentry)) ?_
  intro entry hentry other hother x hx hx'
  exact ((namedIn_of_mem_rowNames hentry hx).unique (namedIn_of_mem_rowNames hother hx')).2

/-- The names that a grid has to give are different. -/
theorem nodup_gridNames (hnodup : grid.positions.Nodup) (decisions : List Decision) : (gridNames decisions grid).Nodup := by
  have hkeys : (grid.lanes.map id).Nodup := by
    rw [List.map_id]
    exact Grouping.nodup_eraseDups _
  refine nodup_flatMap_of_keys hkeys (fun lane hlane => nodup_laneNames hnodup hlane) ?_
  intro lane _ other _ x hx hx'
  obtain ⟨entry, hentry, hx⟩ := List.mem_flatMap.1 hx
  obtain ⟨entry', hentry', hx'⟩ := List.mem_flatMap.1 hx'
  exact ((namedIn_of_mem_rowNames hentry hx).unique (namedIn_of_mem_rowNames hentry' hx')).1

end Assembly

end TokenForest

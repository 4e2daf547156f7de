import TokenForest.Proofs.Assembly.Names
import TokenForest.Proofs.Assembly.Mirrored

/-!
# Node ids

Ids identify nodes: no two nodes made while a forest is assembled have the same id. For one id, every step is counted: the nodes
that stand somewhere or have been left out are among those made, and making one uses up a name that the grid has to give.
-/

namespace TokenForest

namespace Assembly

variable {α β : Type} {grammar : Grammar} {decisions : List Decision} {grid : Grid} {i : String} {s s' : List NodeInfo × Notes}
  {n n' : Notes}

/-! ## Counting -/

/-- How many nodes with an id stand in some trees. -/
def occurrences (i : String) (ts : List SyntaxTree) : Nat := ((ts.flatMap SyntaxTree.infos).map (·.id)).count i

/-- How many nodes with an id are open on a path or stand below it. -/
def occurrencesOn (i : String) (path : List OpenNode) : Nat := occurrences i (path.map OpenNode.close)

/-- How many nodes with an id stand in a lane. -/
def occurrencesIn (i : String) (lane : OpenLane) : Nat := occurrences i lane.roots + occurrencesOn i (lanePath lane)

/-- How many nodes with an id have been left out. -/
def leftOutWith (i : String) (n : Notes) : Nat := (n.mismatches.map (·.nodeId)).count i

/-- How many nodes with an id have been made. -/
def madeWith (i : String) (made : List NodeInfo) : Nat := (made.map (·.id)).count i

/-- How often an id is among the names at some symbols. -/
def namesOf (i : String) (items : List Admitted) : Nat := (items.flatMap (fun item => symbolNames item.position)).count i

@[simp] theorem occurrences_nil : occurrences i [] = 0 := rfl

@[simp] theorem occurrences_append (ts us : List SyntaxTree) : occurrences i (ts ++ us) = occurrences i ts + occurrences i us := by
  simp [occurrences]

theorem occurrences_cons (t : SyntaxTree) (ts : List SyntaxTree) : occurrences i (t :: ts) = occurrences i [t] + occurrences i ts := by
  rw [← occurrences_append, List.singleton_append]

theorem occurrences_node (info : NodeInfo) (ts : List SyntaxTree) :
    occurrences i [.node info ts] = madeWith i [info] + occurrences i ts := by
  simp [occurrences, madeWith, SyntaxTree.infos_node, List.count_cons, Nat.add_comm]

@[simp] theorem occurrencesOn_nil : occurrencesOn i [] = 0 := rfl

@[simp] theorem occurrencesOn_cons (x : OpenNode) (path : List OpenNode) :
    occurrencesOn i (x :: path) = madeWith i [x.info] + occurrences i x.children + occurrencesOn i path := by
  rw [occurrencesOn, List.map_cons, occurrences_cons, OpenNode.close, occurrences_node, occurrencesOn]

@[simp] theorem occurrencesOn_append (path path' : List OpenNode) :
    occurrencesOn i (path ++ path') = occurrencesOn i path + occurrencesOn i path' := by
  simp [occurrencesOn]

@[simp] theorem madeWith_append (made made' : List NodeInfo) : madeWith i (made ++ made') = madeWith i made + madeWith i made' := by
  simp [madeWith]

theorem namesOf_append (items items' : List Admitted) : namesOf i (items ++ items') = namesOf i items + namesOf i items' := by
  simp [namesOf]

theorem namesOf_cons (item : Admitted) (items : List Admitted) : namesOf i (item :: items) = namesOf i [item] + namesOf i items := by
  rw [← namesOf_append, List.singleton_append]

/-- The names do not depend on the intents. -/
theorem namesOf_classified (items : List Admitted) : namesOf i (classified grammar items) = namesOf i items := by
  have hpositions : (classified grammar items).map (·.position) = items.map (·.position) :=
    List.ext_getElem (by simp [classified]) fun k _ _ => by simp [classified]
  have hnames := congrArg (fun ps : List Position => (ps.flatMap symbolNames).count i) hpositions
  simp only [List.flatMap_map] at hnames
  exact hnames

/-! ## Trees and paths -/

theorem occurrences_close (x : OpenNode) : occurrences i [x.close] = madeWith i [x.info] + occurrences i x.children :=
  occurrences_node x.info x.children

/-- More trees below a node. -/
theorem occurrencesOn_add (x : OpenNode) (ts : List SyntaxTree) (path : List OpenNode) :
    occurrencesOn i (x.add ts :: path) = occurrencesOn i (x :: path) + occurrences i ts := by
  rw [occurrencesOn_cons, occurrencesOn_cons, OpenNode.add, occurrences_append]
  simp only
  omega

/-- Closing a path keeps its nodes. -/
theorem occurrences_plug (path : List OpenNode) (t : SyntaxTree) :
    occurrences i [OpenNode.plug path t] = occurrences i [t] + occurrencesOn i path := by
  induction path generalizing t with
  | nil => rfl
  | cons x path ih =>
    have hstep : OpenNode.plug (x :: path) t = OpenNode.plug path (x.add [t]).close := rfl
    rw [hstep, ih, occurrences_close, occurrencesOn_cons, OpenNode.add, occurrences_append]
    simp only
    omega

theorem occurrences_closePath (path : List OpenNode) : occurrences i (closePath path).toList = occurrencesOn i path := by
  cases path with
  | nil => rfl
  | cons x path =>
    rw [closePath, Option.toList_some, occurrences_plug, occurrences_close, occurrencesOn_cons]

theorem occurrences_filterMap_prune? {ts : List SyntaxTree} (h : ∀ t ∈ ts, occurrences i t.prune?.toList ≤ occurrences i [t]) :
    occurrences i (ts.filterMap SyntaxTree.prune?) ≤ occurrences i ts := by
  induction ts with
  | nil => exact Nat.le_refl _
  | cons t ts ih =>
    have hfirst := h t (by simp)
    have hrest := ih fun u hu => h u (by simp [hu])
    rw [occurrences_cons t ts, List.filterMap_cons]
    cases hprune : t.prune? with
    | none =>
      simp only
      omega
    | some kept =>
      rw [hprune, Option.toList_some] at hfirst
      simp only
      rw [occurrences_cons]
      omega

/-- Pruning adds no nodes. -/
theorem occurrences_prune? (t : SyntaxTree) : occurrences i t.prune?.toList ≤ occurrences i [t] := by
  induction t with
  | node info children ih =>
    rw [SyntaxTree.prune?_node]
    split
    · exact Nat.le_refl _
    · simp only
      split
      · simp
      · rw [Option.toList_some, occurrences_node, occurrences_node]
        exact Nat.add_le_add_left (occurrences_filterMap_prune? ih) _

theorem occurrences_pruneAll (ts : List SyntaxTree) : occurrences i (SyntaxTree.pruneAll ts) ≤ occurrences i ts := by
  rw [SyntaxTree.pruneAll_eq]
  exact occurrences_filterMap_prune? fun t _ => occurrences_prune? t

/-! ## Rows and lanes -/

/-- Trees go into the node that is open. -/
theorem occurrencesOn_addTrees (row : OpenRow) (ts : List SyntaxTree) :
    occurrencesOn i (openPath (addTrees row ts)) = occurrencesOn i (openPath row) + occurrences i ts := by
  obtain ⟨x, path, hpath, _, hadd⟩ := openPath_eq row
  rw [hadd, occurrencesOn_add, hpath]

/-- Finished statements go into the innermost block, or among the roots. -/
theorem occurrencesIn_addStatements (lane : OpenLane) (ts : List SyntaxTree) :
    occurrencesIn i (addStatements lane ts) = occurrencesIn i lane + occurrences i ts := by
  obtain ⟨blocks, roots⟩ := lane
  cases blocks with
  | nil => simp [occurrencesIn, addStatements, lanePath]
  | cons b rest =>
    simp only [occurrencesIn, addStatements, lanePath_cons, List.cons_append]
    rw [occurrencesOn_add]
    omega

theorem occurrencesIn_cons (b : OpenBlock) (rest : List OpenBlock) (roots : List SyntaxTree) :
    occurrencesIn i ⟨b :: rest, roots⟩ = occurrencesOn i (b.node :: b.path) + occurrencesIn i ⟨rest, roots⟩ := by
  simp only [occurrencesIn, lanePath_cons, occurrencesOn_append]
  omega

/-- A closed block holds what stood on its path. -/
theorem occurrences_closeBlock (b : OpenBlock) : occurrences i [closeBlock b] = occurrencesOn i (b.node :: b.path) := by
  rw [closeBlock, occurrences_plug, occurrences_close, occurrencesOn_cons]

/-- Closing what is open at the end of a lane keeps its nodes. -/
theorem occurrences_closeLane (lane : OpenLane) : occurrences i (closeLane lane) = occurrencesIn i lane := by
  have hclosed : occurrencesIn i ⟨[], closeLane lane⟩ = occurrencesIn i lane := by
    apply closeLane_induction (P := fun l => occurrencesIn i l = occurrencesIn i lane) rfl
    intro b rest roots h
    rw [← h, occurrencesIn_addStatements, occurrences_closeBlock, occurrencesIn_cons, Nat.add_comm]
  rw [← hclosed, occurrencesIn, lanePath, List.flatMap_nil, occurrencesOn_nil, Nat.add_zero]

/-! ## Steps -/

/-- The computation runs from one state, the nodes made and the notes taken so far, to another. -/
def Runs (x : Recording α) (s : List NodeInfo × Notes) (a : α) (s' : List NodeInfo × Notes) : Prop :=
  (x.run s.1).run s.2 = ((a, s'.1), s'.2)

/-- What a step does to the number of nodes with one id. What stands somewhere after it or has been left out stood somewhere
before or was made, and the step made no more than it had names for. -/
structure Tally (i : String) (s : List NodeInfo × Notes) (held : Nat) (s' : List NodeInfo × Notes) (held' names : Nat) : Prop where
  kept : held' + leftOutWith i s'.2 + madeWith i s.1 ≤ held + leftOutWith i s.2 + madeWith i s'.1
  spent : madeWith i s'.1 ≤ madeWith i s.1 + names

/-- A node at the gate is admitted or left out. -/
theorem Entered.count {parent : Option NodeInfo} {child : NodeInfo} {r : Option NodeInfo}
    (h : Entered grammar parent child n r n') : madeWith i r.toList + leftOutWith i n' = madeWith i [child] + leftOutWith i n := by
  cases h with
  | admitted => rfl
  | coerced => rfl
  | leftOut => simp [leftOutWith, madeWith, Notes.leaveOut, Nat.add_comm]

namespace Runs

variable {x : Recording α} {f : α → Recording β} {a : α} {b : β}

theorem bind (h : Runs (x >>= f) s b s') : ∃ a s₁, Runs x s a s₁ ∧ Runs (f a) s₁ b s' :=
  ⟨_, (((x.run s.1).run s.2).1.2, ((x.run s.1).run s.2).2), rfl, h⟩

theorem pure {a' : α} (h : Runs (pure a) s a' s') : a' = a ∧ s' = s := by
  obtain ⟨made', n'⟩ := s'
  cases h
  exact ⟨rfl, rfl⟩

/-- A computation that makes no node. -/
theorem noting {y : Noting α} (h : Runs (Building.note y) s a s') : y.run s.2 = (a, s'.2) ∧ s'.1 = s.1 := by
  obtain ⟨made', n'⟩ := s'
  cases h
  exact ⟨rfl, rfl⟩

/-- Making a node uses up its name. -/
theorem make {info made : NodeInfo} (h : Runs (Building.make info) s made s') :
    made = info ∧ Tally i s 0 s' (madeWith i [info]) (madeWith i [info]) := by
  obtain ⟨made', n'⟩ := s'
  cases h
  have hmade : madeWith i (s.1.append [info]) = madeWith i s.1 + madeWith i [info] := madeWith_append s.1 [info]
  refine ⟨rfl, ?_, Nat.le_of_eq hmade⟩
  change madeWith i [info] + leftOutWith i s.2 + madeWith i s.1 ≤ 0 + leftOutWith i s.2 + madeWith i (s.1.append [info])
  omega

/-- A warning is about no node. -/
theorem warn {text : String} {u : Unit} (h : Runs (Building.note (modify fun n => n.warn text)) s u s') : Tally i s 0 s' 0 0 := by
  obtain ⟨made', n'⟩ := s'
  cases h
  exact ⟨Nat.le_refl _, Nat.le_refl _⟩

/-- At the gate a node is admitted or left out. -/
theorem enter {parent : Option NodeInfo} {child : NodeInfo} {r : Option NodeInfo}
    (h : Runs (Building.note (enter grammar parent child)) s r s') :
    Tally i s (madeWith i [child]) s' (madeWith i r.toList) 0 := by
  obtain ⟨hrun, hmade⟩ := h.noting
  have hcount := (entered_of_run hrun).count (i := i)
  exact ⟨by rw [hmade]; omega, by rw [hmade]; omega⟩

end Runs

/-- The names of the nodes that a symbol may need. -/
theorem namesOf_singleton (item : Admitted) (intent intent' : Intent) : namesOf i [item] =
    madeWith i [terminalInfo item] + madeWith i [groupInfo item intent] + madeWith i [blockInfo item intent'] := by
  have hnames : symbolNames item.position =
      [(terminalInfo item).id] ++ [(groupInfo item intent).id] ++ [(blockInfo item intent').id] := rfl
  rw [namesOf, List.flatMap_singleton, hnames, List.count_append, List.count_append]
  rfl

/-- A symbol needs the name of its terminal. -/
theorem terminalUnder_tally {parent : NodeInfo} {item : Admitted} {ts : List SyntaxTree}
    (h : Runs (terminalUnder grammar parent item) s ts s') :
    Tally i s 0 s' (occurrences i ts) (madeWith i [terminalInfo item]) := by
  obtain ⟨leaf, s₁, hmake, h⟩ := h.bind
  obtain ⟨r, s₂, henter, h⟩ := h.bind
  obtain ⟨rfl, rfl⟩ := h.pure
  obtain ⟨rfl, hk₁, hs₁⟩ := hmake.make (i := i)
  obtain ⟨hk₂, hs₂⟩ := henter.enter (i := i)
  have hleaf : occurrences i (r.map (fun info => SyntaxTree.node info [])).toList = madeWith i r.toList := by
    cases r with
    | none => rfl
    | some info => exact occurrences_node info []
  exact ⟨by omega, by omega⟩

theorem startGroup_tally {row row' : OpenRow} {previous : Intent} {item : Admitted}
    (h : Runs (startGroup grammar row previous item) s row' s') :
    Tally i s (occurrencesOn i (openPath row)) s' (occurrencesOn i (openPath row')) (namesOf i [item]) := by
  obtain ⟨group, s₁, hmake, h⟩ := h.bind
  obtain ⟨r, s₂, henter, h⟩ := h.bind
  obtain ⟨rfl, hk₁, hs₁⟩ := hmake.make (i := i)
  obtain ⟨hk₂, hs₂⟩ := henter.enter (i := i)
  have hnames := namesOf_singleton (i := i) item (if previous = .invoke then .invoke else row.statement.info.intent) .unresolved
  rw [groupInfo] at hnames
  cases r with
  | none =>
    obtain ⟨rfl, rfl⟩ := h.pure
    exact ⟨by omega, by omega⟩
  | some info =>
    obtain ⟨first, s₃, hterm, h⟩ := h.bind
    obtain ⟨rfl, rfl⟩ := h.pure
    obtain ⟨hk₃, hs₃⟩ := terminalUnder_tally (i := i) hterm
    have hopen := occurrencesOn_cons (i := i) ⟨info, first⟩ (openPath row)
    rw [Option.toList_some] at hk₂
    refine ⟨?_, by omega⟩
    change occurrencesOn i (⟨info, first⟩ :: openPath row) + _ + _ ≤ _
    simp only at hopen
    omega

/-- A symbol that becomes a terminal of the open node. -/
theorem terminal_tally {row : OpenRow} {parent : NodeInfo} {item : Admitted} {ts : List SyntaxTree}
    (h : Runs (terminalUnder grammar parent item) s ts s') :
    Tally i s (occurrencesOn i (openPath row)) s' (occurrencesOn i (openPath (addTrees row ts))) (namesOf i [item]) := by
  obtain ⟨hk, hs⟩ := terminalUnder_tally (i := i) h
  have hnames := namesOf_singleton (i := i) item .unresolved .unresolved
  have hadd := occurrencesOn_addTrees (i := i) row ts
  exact ⟨by omega, by omega⟩

theorem endGroup_tally {row row' : OpenRow} {group : OpenGroup} {rest : List OpenGroup} {item : Admitted}
    (hrow : row.groups = group :: rest) (h : Runs (endGroup grammar row group rest item) s row' s') :
    Tally i s (occurrencesOn i (openPath row)) s' (occurrencesOn i (openPath row')) (namesOf i [item]) := by
  obtain ⟨last, s₁, hterm, h⟩ := h.bind
  obtain ⟨rfl, rfl⟩ := h.pure
  obtain ⟨hk, hs⟩ := terminalUnder_tally (i := i) hterm
  have hnames := namesOf_singleton (i := i) item .unresolved .unresolved
  have hopen : openPath row = group.node :: openPath { row with groups := rest } := by
    rw [openPath, hrow]
    rfl
  have hbefore := occurrencesOn_cons (i := i) group.node (openPath { row with groups := rest })
  have hclosed : occurrences i [(group.node.add last).close] =
      madeWith i [group.node.info] + (occurrences i group.node.children + occurrences i last) := by
    rw [← occurrences_append]
    exact occurrences_close _
  have hafter := occurrencesOn_addTrees (i := i) { row with groups := rest } [(group.node.add last).close]
  rw [hopen]
  exact ⟨by omega, by omega⟩

/-- Adding a symbol to a row. -/
theorem addItem_tally {row row' : OpenRow} {previous : Intent} {item : Admitted}
    (h : Runs (addItem grammar row previous item) s row' s') :
    Tally i s (occurrencesOn i (openPath row)) s' (occurrencesOn i (openPath row')) (namesOf i [item]) := by
  rw [addItem] at h
  split at h
  · exact startGroup_tally h
  · split at h
    · rename_i group rest hrow
      split at h
      · exact endGroup_tally hrow h
      · obtain ⟨ts, s₁, hterm, h⟩ := h.bind
        obtain ⟨rfl, rfl⟩ := h.pure
        exact terminal_tally hterm
    · obtain ⟨ts, s₁, hterm, h⟩ := h.bind
      obtain ⟨rfl, rfl⟩ := h.pure
      exact terminal_tally hterm

theorem startBlock_tally {row : OpenRow} {item : Admitted} {block : Option OpenNode}
    (h : Runs (startBlock grammar row item) s block s') :
    Tally i s 0 s' (occurrencesOn i block.toList) (namesOf i [item]) := by
  obtain ⟨made, s₁, hmake, h⟩ := h.bind
  obtain ⟨r, s₂, henter, h⟩ := h.bind
  obtain ⟨rfl, hk₁, hs₁⟩ := hmake.make (i := i)
  obtain ⟨hk₂, hs₂⟩ := henter.enter (i := i)
  have hnames := namesOf_singleton (i := i) item .unresolved row.statement.info.intent
  rw [blockInfo] at hnames
  cases r with
  | none =>
    obtain ⟨rfl, rfl⟩ := h.pure
    have hnone : occurrencesOn i (none : Option OpenNode).toList = 0 := rfl
    exact ⟨by omega, by omega⟩
  | some info =>
    obtain ⟨first, s₃, hterm, h⟩ := h.bind
    obtain ⟨rfl, rfl⟩ := h.pure
    obtain ⟨hk₃, hs₃⟩ := terminalUnder_tally (i := i) hterm
    have hopen := occurrencesOn_cons (i := i) ⟨info, first⟩ []
    rw [occurrencesOn_nil] at hopen
    rw [Option.toList_some] at hk₂ ⊢
    simp only at hopen
    exact ⟨by omega, by omega⟩

/-- Adding the symbols of a row. -/
theorem addItems_tally {items : List Admitted} {row row' : OpenRow} {previous : Intent} {block : Option OpenNode}
    (h : Runs (addItems grammar row previous items) s (row', block) s') :
    Tally i s (occurrencesOn i (openPath row)) s' (occurrencesOn i (block.toList ++ openPath row')) (namesOf i items) := by
  induction items generalizing row previous s with
  | nil =>
    obtain ⟨hr, rfl⟩ := h.pure
    cases hr
    exact ⟨Nat.le_refl _, Nat.le_refl _⟩
  | cons item rest ih =>
    cases rest with
    | nil =>
      rw [addItems] at h
      split at h
      · obtain ⟨b, s₁, hblock, h⟩ := h.bind
        obtain ⟨hr, rfl⟩ := h.pure
        cases hr
        obtain ⟨hk, hs⟩ := startBlock_tally (i := i) hblock
        rw [occurrencesOn_append]
        exact ⟨by omega, by omega⟩
      · obtain ⟨row₁, s₁, hitem, h⟩ := h.bind
        obtain ⟨hr, rfl⟩ := h.pure
        cases hr
        exact addItem_tally hitem
    | cons next rest =>
      rw [addItems] at h
      · obtain ⟨row₁, s₁, hitem, h⟩ := h.bind
        obtain ⟨hk₁, hs₁⟩ := addItem_tally (i := i) hitem
        obtain ⟨hk₂, hs₂⟩ := ih h
        rw [namesOf_cons]
        exact ⟨by omega, by omega⟩
      · simp

/-! ## Statements and lanes -/

/-- A closer at the start of a row needs a name when it closes a block. -/
theorem takeCloser_tally {lane lane' : OpenLane} {items left : List Admitted}
    (h : Runs (takeCloser grammar lane items) s (lane', left) s') : ∃ taken, items = taken ++ left ∧
      Tally i s (occurrencesIn i lane) s' (occurrencesIn i lane') (namesOf i taken) := by
  cases items with
  | nil =>
    obtain ⟨hr, rfl⟩ := h.pure
    cases hr
    exact ⟨[], rfl, Nat.le_refl _, Nat.le_refl _⟩
  | cons first rest =>
    rw [takeCloser] at h
    split at h
    · obtain ⟨blocks, roots⟩ := lane
      cases blocks with
      | nil =>
        obtain ⟨_, s₁, hwarn, h⟩ := h.bind
        obtain ⟨hr, rfl⟩ := h.pure
        cases hr
        obtain ⟨hk, hs⟩ := hwarn.warn (i := i)
        exact ⟨[], rfl, by omega, by omega⟩
      | cons b outer =>
        obtain ⟨ts, s₁, hterm, h⟩ := h.bind
        obtain ⟨hr, rfl⟩ := h.pure
        cases hr
        obtain ⟨hk, hs⟩ := terminalUnder_tally (i := i) hterm
        have hnames := namesOf_singleton (i := i) { first with intent := .terminate } .unresolved .unresolved
        have htaken : namesOf i [{ first with intent := .terminate }] = namesOf i [first] := rfl
        have hclosed : occurrences i [closeBlock { b with node := b.node.add ts }] = occurrencesOn i (b.node.add ts :: b.path) :=
          occurrences_closeBlock _
        have hafter := occurrencesIn_addStatements (i := i) ⟨outer, roots⟩ [closeBlock { b with node := b.node.add ts }]
        have hadd := occurrencesOn_add (i := i) b.node ts b.path
        have hbefore := occurrencesIn_cons (i := i) b outer roots
        refine ⟨[first], rfl, ?_, by omega⟩
        change occurrencesIn i (addStatements ⟨outer, roots⟩ _) + _ + _ ≤ _
        omega
    · obtain ⟨hr, rfl⟩ := h.pure
      cases hr
      exact ⟨[], rfl, Nat.le_refl _, Nat.le_refl _⟩

/-- A finished row joins its lane, or is left out with all that stands in it. -/
theorem addRowTree_tally {lane lane' : OpenLane} {row : OpenRow} {block : Option OpenNode}
    (h : Runs (Building.note (addRowTree grammar lane row block)) s lane' s') :
    Tally i s (occurrencesIn i lane + occurrencesOn i (block.toList ++ openPath row)) s' (occurrencesIn i lane') 0 := by
  obtain ⟨hrun, hmade⟩ := h.noting
  obtain ⟨r, n₁, henter, hrun⟩ := run_bind hrun
  have hcount := (entered_of_run henter).count (i := i)
  have hpath : ∀ info, occurrencesOn i (openPath { row with statement := { row.statement with info } }) + madeWith i [row.statement.info] =
      occurrencesOn i (openPath row) + madeWith i [info] := by
    intro info
    simp only [openPath, occurrencesOn_append, occurrencesOn_cons, occurrencesOn_nil]
    omega
  rw [occurrencesOn_append]
  cases r with
  | none =>
    obtain ⟨rfl, hn⟩ := run_pure hrun
    have hstatement := hpath row.statement.info
    have hnone : madeWith i (none : Option NodeInfo).toList = 0 := rfl
    have hheld : madeWith i [row.statement.info] ≤ occurrencesOn i (openPath row) := by
      simp only [openPath, occurrencesOn_append, occurrencesOn_cons, occurrencesOn_nil]
      omega
    exact ⟨by rw [hmade, hn]; omega, by rw [hmade]; omega⟩
  | some info =>
    have hstatement := hpath info
    rw [Option.toList_some] at hcount
    simp only at hrun
    generalize openPath { row with statement := { row.statement with info } } = path at hstatement hrun
    cases block with
    | some node =>
      obtain ⟨rfl, hn⟩ := run_pure hrun
      have hopen : occurrencesIn i { lane with blocks := ⟨node, path⟩ :: lane.blocks } =
          occurrencesOn i (node :: path) + occurrencesIn i lane := occurrencesIn_cons ⟨node, path⟩ lane.blocks lane.roots
      have hnode : occurrencesOn i (node :: path) = occurrencesOn i (some node).toList + occurrencesOn i path :=
        occurrencesOn_append [node] path
      exact ⟨by rw [hmade, hn]; omega, by rw [hmade]; omega⟩
    | none =>
      obtain ⟨rfl, hn⟩ := run_pure hrun
      rw [occurrencesIn_addStatements, occurrences_closePath]
      exact ⟨by rw [hmade, hn]; omega, by rw [hmade]; omega⟩

/-- Adding a statement needs its name, and those at its symbols. -/
theorem addStatement_tally {laneId : Lane} {number : Nat} {lane lane' : OpenLane} {items : List Admitted}
    (h : Runs (addStatement grammar laneId number lane items) s lane' s') :
    Tally i s (occurrencesIn i lane) s' (occurrencesIn i lane') ([statementId laneId number].count i + namesOf i items) := by
  cases items with
  | nil =>
    obtain ⟨rfl, rfl⟩ := h.pure
    exact ⟨Nat.le_refl _, Nat.le_add_right _ _⟩
  | cons first rest =>
    obtain ⟨statement, s₁, hmake, h⟩ := h.bind
    obtain ⟨⟨row, block⟩, s₂, hitems, h⟩ := h.bind
    obtain ⟨hstatement, hk₁, hs₁⟩ := hmake.make (i := i)
    obtain ⟨hk₂, hs₂⟩ := addItems_tally (i := i) hitems
    have hname : madeWith i [statement] = [statementId laneId number].count i := by rw [hstatement]; rfl
    have hempty : occurrencesOn i (openPath ⟨⟨statement, []⟩, []⟩) = madeWith i [statement] := occurrencesOn_cons _ _
    rw [namesOf_classified] at hs₂
    rw [← hstatement] at hk₁ hs₁
    have hwarned : ∃ s₃, Tally i s₂ 0 s₃ 0 0 ∧ Runs (Building.note (addRowTree grammar lane row block)) s₃ lane' s' := by
      simp only at h
      split at h
      · obtain ⟨_, s₃, hwarn, h⟩ := h.bind
        exact ⟨s₃, hwarn.warn, h⟩
      · exact ⟨s₂, ⟨Nat.le_refl _, Nat.le_refl _⟩, h⟩
    obtain ⟨s₃, ⟨hk₃, hs₃⟩, h⟩ := hwarned
    obtain ⟨hk₄, hs₄⟩ := addRowTree_tally (i := i) h
    exact ⟨by omega, by omega⟩

/-- A row uses up only its own names. -/
theorem addRow_tally {laneId : Lane} {lane lane' : OpenLane} {entry : Nat × List Admitted}
    (h : Runs (addRow grammar laneId lane entry) s lane' s') :
    Tally i s (occurrencesIn i lane) s' (occurrencesIn i lane') ((rowNames laneId entry).count i) := by
  obtain ⟨⟨lane₁, left⟩, s₁, hcloser, h⟩ := h.bind
  obtain ⟨taken, htaken, hk₁, hs₁⟩ := takeCloser_tally (i := i) hcloser
  obtain ⟨hk₂, hs₂⟩ := addStatement_tally (i := i) h
  have hnames : (rowNames laneId entry).count i = [statementId laneId entry.1].count i + namesOf i entry.2 := by
    rw [rowNames, ← List.singleton_append, List.count_append, namesOf]
  rw [htaken, namesOf_append] at hnames
  exact ⟨by omega, by omega⟩

/-- The rows of a lane use up the names of the lane. -/
theorem addRows_tally {laneId : Lane} {lane lane' : OpenLane} {rows : List (Nat × List Admitted)}
    (h : Runs (rows.foldlM (addRow grammar laneId) lane) s lane' s') :
    Tally i s (occurrencesIn i lane) s' (occurrencesIn i lane') ((laneNames laneId rows).count i) := by
  induction rows generalizing lane s with
  | nil =>
    obtain ⟨rfl, rfl⟩ := h.pure
    exact ⟨Nat.le_refl _, Nat.le_refl _⟩
  | cons entry rows ih =>
    obtain ⟨lane₁, s₁, hrow, h⟩ := h.bind
    obtain ⟨hk₁, hs₁⟩ := addRow_tally (i := i) hrow
    obtain ⟨hk₂, hs₂⟩ := ih h
    rw [laneNames, List.flatMap_cons, List.count_append, ← laneNames]
    exact ⟨by omega, by omega⟩

/-- Warnings are about no node. -/
theorem mismatches_warnings {f : α → String} {xs : List α} {u : Unit}
    (h : (xs.forM (fun x => (modify fun n => n.warn (f x) : Noting Unit))).run n = (u, n')) : n'.mismatches = n.mismatches := by
  induction xs generalizing n with
  | nil =>
    cases h
    rfl
  | cons x xs ih =>
    obtain ⟨_, n₁, hwarn, h⟩ := run_bind h
    cases hwarn
    have hrest := ih h
    exact hrest

/-- A finished lane. -/
theorem laneRoots_tally {laneId : Lane} {rows : List (Nat × List Admitted)} {roots : List SyntaxTree}
    (h : Runs (laneRoots grammar laneId rows) s roots s') :
    Tally i s 0 s' (occurrences i roots) ((laneNames laneId rows).count i) := by
  obtain ⟨lane, s₁, hrows, h⟩ := h.bind
  obtain ⟨_, s₂, hwarned, h⟩ := h.bind
  obtain ⟨rfl, rfl⟩ := h.pure
  obtain ⟨hk, hs⟩ := addRows_tally (i := i) hrows
  obtain ⟨hrun, hmade⟩ := hwarned.noting
  have hempty : occurrencesIn i ⟨[], []⟩ = 0 := rfl
  have hpruned := occurrences_pruneAll (i := i) (closeLane lane)
  rw [occurrences_closeLane] at hpruned
  have hleft : leftOutWith i s'.2 = leftOutWith i s₁.2 := by rw [leftOutWith, mismatches_warnings hrun, leftOutWith]
  rw [← hmade] at hk hs
  exact ⟨by omega, by omega⟩

/-- Lanes one behind the other. -/
theorem lanes_tally {lanes : List Lane} {trees : List (List SyntaxTree)} {f : Lane → List (Nat × List Admitted)}
    (h : Runs (lanes.mapM (fun lane => laneRoots grammar lane (f lane))) s trees s') :
    Tally i s 0 s' (occurrences i trees.flatten) ((lanes.flatMap (fun lane => laneNames lane (f lane))).count i) := by
  induction lanes generalizing s trees with
  | nil =>
    obtain ⟨rfl, rfl⟩ := h.pure
    exact ⟨Nat.le_refl _, Nat.le_refl _⟩
  | cons lane lanes ih =>
    rw [List.mapM_cons] at h
    obtain ⟨first, s₁, hfirst, h⟩ := h.bind
    obtain ⟨others, s₂, hothers, h⟩ := h.bind
    obtain ⟨rfl, rfl⟩ := h.pure
    obtain ⟨hk₁, hs₁⟩ := laneRoots_tally (i := i) hfirst
    obtain ⟨hk₂, hs₂⟩ := ih hothers
    rw [List.flatten_cons, occurrences_append, List.flatMap_cons, List.count_append]
    exact ⟨by omega, by omega⟩

/-! ## The whole forest -/

/-- The nodes in a forest and those left out are among the nodes made, and no more nodes are made than the grid has names for. -/
theorem ofDecisions_tally (decisions : List Decision) (grid : Grid) (grammar : Grammar) (i : String) :
    occurrences i (ofDecisions decisions grid grammar).roots + leftOutWith i (ofDecisions decisions grid grammar).notes ≤
        madeWith i (Recorded.ofDecisions decisions grid grammar).2 ∧
      madeWith i (Recorded.ofDecisions decisions grid grammar).2 ≤ (gridNames decisions grid).count i := by
  obtain ⟨trees, s', hrun, hroots, hnotes, hmade⟩ : ∃ trees s',
      Runs (grid.lanes.mapM (fun lane => laneRoots grammar lane (admittedRows grid decisions lane))) ([], .empty) trees s' ∧
        (Recorded.ofDecisions decisions grid grammar).1.roots = trees.flatten ∧
        (Recorded.ofDecisions decisions grid grammar).1.notes = s'.2 ∧ (Recorded.ofDecisions decisions grid grammar).2 = s'.1 :=
    ⟨_, (_, _), rfl, rfl, rfl, rfl⟩
  obtain ⟨hk, hs⟩ := lanes_tally (i := i) hrun
  have hnone : madeWith i ([], Notes.empty).1 = 0 := rfl
  have hnoted : leftOutWith i (([] : List NodeInfo), Notes.empty).2 = 0 := rfl
  rw [← recorded_fst, hroots, hnotes, hmade]
  rw [← gridNames] at hs
  exact ⟨by omega, by omega⟩

/-- Ids identify nodes. In the assembly of a grid, recorded or not, no two of all nodes that are made have the same id; each node
of the forest and each one that was left out is one of them; and no node that was left out has the id of a node of the forest. -/
theorem ids_identify_nodes {records : List TokenRecord} {staged : Bool} {source : Grammar}
    (h : Grid.organize records staged source = .ok grid) (decisions : List Decision) (grammar : Grammar) :
    ∃ made : List NodeInfo,
      Recorded.ofDecisions decisions grid grammar = (ofDecisions decisions grid grammar, made) ∧
      (made.map (·.id)).Nodup ∧
      (((ofDecisions decisions grid grammar).roots.flatMap SyntaxTree.infos).map (·.id) ++
        (ofDecisions decisions grid grammar).notes.mismatches.map (·.nodeId)).Subperm (made.map (·.id)) ∧
      ∀ m ∈ (ofDecisions decisions grid grammar).notes.mismatches, ∀ t ∈ (ofDecisions decisions grid grammar).roots,
        ∀ info ∈ t.infos, info.id ≠ m.nodeId := by
  have htally := ofDecisions_tally decisions grid grammar
  have honce : ∀ i, madeWith i (Recorded.ofDecisions decisions grid grammar).2 ≤ 1 := fun i =>
    (htally i).2.trans (List.nodup_iff_count_le_one.1 (nodup_gridNames (Grid.nodup_positions h) decisions) i)
  refine ⟨_, Prod.ext (recorded_fst decisions grid grammar) rfl, List.nodup_iff_count_le_one.2 honce, ?_, ?_⟩
  · refine List.subperm_ext_iff.2 fun i _ => ?_
    rw [List.count_append]
    exact (htally i).1
  · intro m hm t ht info hinfo hid
    have hforest : 0 < occurrences m.nodeId (ofDecisions decisions grid grammar).roots :=
      List.count_pos_iff.2 (hid ▸ List.mem_map_of_mem (List.mem_flatMap.2 ⟨t, ht, hinfo⟩))
    have hout : 0 < leftOutWith m.nodeId (ofDecisions decisions grid grammar).notes :=
      List.count_pos_iff.2 (List.mem_map_of_mem hm)
    have hsum := (htally m.nodeId).1
    have hone := honce m.nodeId
    omega

/-- The crossed brackets, where a statement is left out together with the nodes that were made for its symbols. -/
theorem ids_identify_nodes_crossed : Grid.organize crossedRecords crossedGrid.staged .default = .ok crossedGrid ∧
    (ofDecisions crossedDecisions crossedGrid .default).notes.mismatches.length = 1 ∧
    ∃ made : List NodeInfo,
      Recorded.ofDecisions crossedDecisions crossedGrid .default = (ofDecisions crossedDecisions crossedGrid .default, made) ∧
      (made.map (·.id)).Nodup ∧
      (((ofDecisions crossedDecisions crossedGrid .default).roots.flatMap SyntaxTree.infos).map (·.id) ++
        (ofDecisions crossedDecisions crossedGrid .default).notes.mismatches.map (·.nodeId)).Subperm (made.map (·.id)) ∧
      ∀ m ∈ (ofDecisions crossedDecisions crossedGrid .default).notes.mismatches,
        ∀ t ∈ (ofDecisions crossedDecisions crossedGrid .default).roots, ∀ info ∈ t.infos, info.id ≠ m.nodeId :=
  ⟨organize_crossedRecords, by decide +kernel, ids_identify_nodes organize_crossedRecords crossedDecisions .default⟩

end Assembly

end TokenForest

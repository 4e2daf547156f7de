import TokenForest.Assembly.Checked

/-!
# Recorded, checked and plain assemblies

An assembly does the same whatever it is made with. A relation to plain computations that every step keeps holds of whole
assemblies. So a recorded assembly without its record is the plain one, and a checked assembly does not fail: every node that is
made passes its check.
-/

namespace TokenForest

namespace Assembly

variable {m : Type → Type} [Monad m] [Building m] {α β : Type} {grammar : Grammar}

/-- A relation to plain computations that is kept by what an assembly is made of. Nodes are made without children. -/
structure Mirrors (R : {α : Type} → m α → Noting α → Prop) : Prop where
  pure {α : Type} (a : α) : R (pure a) (pure a)
  bind {α β : Type} {x : m α} {y : Noting α} {f : α → m β} {g : α → Noting β} (h : R x y) (hf : ∀ a, R (f a) (g a)) :
    R (x >>= f) (y >>= g)
  note {α : Type} (y : Noting α) : R (Building.note y) y
  make {info : NodeInfo} (h : Forest.checkNode info [] = .ok ()) : R (Building.make info) (Building.make info)

namespace Mirrors

variable {R : {α : Type} → m α → Noting α → Prop} (hR : Mirrors R)
include hR

theorem foldlM {σ : Type} {f : σ → α → m σ} {g : σ → α → Noting σ} (h : ∀ s a, R (f s a) (g s a)) (s : σ) (as : List α) :
    R (as.foldlM f s) (as.foldlM g s) := by
  induction as generalizing s with
  | nil => exact hR.pure s
  | cons a as ih =>
    rw [List.foldlM_cons, List.foldlM_cons]
    exact hR.bind (h s a) fun s' => ih s'

theorem mapM [LawfulMonad m] {f : α → m β} {g : α → Noting β} (h : ∀ a, R (f a) (g a)) (as : List α) :
    R (as.mapM f) (as.mapM g) := by
  induction as with
  | nil =>
    rw [List.mapM_nil, List.mapM_nil]
    exact hR.pure []
  | cons a as ih =>
    rw [List.mapM_cons, List.mapM_cons]
    exact hR.bind (h a) fun _ => hR.bind ih fun _ => hR.pure _

/-! ## The steps -/

theorem terminalUnder (parent : NodeInfo) (item : Admitted) :
    R (terminalUnder grammar parent item) (terminalUnder grammar parent item) :=
  hR.bind (hR.make rfl) fun _ => hR.bind (hR.note _) fun _ => hR.pure _

theorem startGroup (row : OpenRow) (previous : Intent) (item : Admitted) :
    R (startGroup grammar row previous item) (startGroup grammar row previous item) := by
  refine hR.bind (hR.make rfl) fun group => hR.bind (hR.note _) fun r => ?_
  cases r with
  | none => exact hR.pure _
  | some info => exact hR.bind (hR.terminalUnder info item) fun _ => hR.pure _

theorem endGroup (row : OpenRow) (group : OpenGroup) (rest : List OpenGroup) (item : Admitted) :
    R (endGroup grammar row group rest item) (endGroup grammar row group rest item) :=
  hR.bind (hR.terminalUnder group.node.info item) fun _ => hR.pure _

theorem addItem (row : OpenRow) (previous : Intent) (item : Admitted) :
    R (addItem grammar row previous item) (addItem grammar row previous item) := by
  rw [Assembly.addItem, Assembly.addItem]
  split
  · exact hR.startGroup row previous item
  · obtain ⟨statement, groups⟩ := row
    cases groups with
    | nil => exact hR.bind (hR.terminalUnder _ item) fun _ => hR.pure _
    | cons group rest =>
      simp only
      split
      · exact hR.endGroup _ group rest item
      · exact hR.bind (hR.terminalUnder _ item) fun _ => hR.pure _

theorem startBlock (row : OpenRow) (item : Admitted) : R (startBlock grammar row item) (startBlock grammar row item) := by
  refine hR.bind (hR.make rfl) fun block => hR.bind (hR.note _) fun r => ?_
  cases r with
  | none => exact hR.pure _
  | some info => exact hR.bind (hR.terminalUnder info item) fun _ => hR.pure _

theorem addItems (row : OpenRow) (previous : Intent) (items : List Admitted) :
    R (addItems grammar row previous items) (addItems grammar row previous items) := by
  induction items generalizing row previous with
  | nil => exact hR.pure _
  | cons item rest ih =>
    cases rest with
    | nil =>
      unfold Assembly.addItems
      split
      · exact hR.bind (hR.startBlock row item) fun _ => hR.pure _
      · exact hR.bind (hR.addItem row previous item) fun _ => hR.pure _
    | cons next rest => exact hR.bind (hR.addItem row previous item) fun row' => ih row' item.intent

theorem takeCloser (lane : OpenLane) (items : List Admitted) :
    R (takeCloser grammar lane items) (takeCloser grammar lane items) := by
  cases items with
  | nil => exact hR.pure _
  | cons first rest =>
    rw [Assembly.takeCloser, Assembly.takeCloser]
    obtain ⟨blocks, roots⟩ := lane
    split
    · cases blocks with
      | nil => exact hR.bind (hR.note _) fun _ => hR.pure _
      | cons block outer => exact hR.bind (hR.terminalUnder _ _) fun _ => hR.pure _
    · exact hR.pure _

theorem addStatement (laneId : Lane) (number : Nat) (lane : OpenLane) (items : List Admitted) :
    R (addStatement grammar laneId number lane items) (addStatement grammar laneId number lane items) := by
  cases items with
  | nil => exact hR.pure _
  | cons first rest =>
    refine hR.bind (hR.make rfl) fun statement => hR.bind (hR.addItems _ _ _) fun r => ?_
    obtain ⟨row, block⟩ := r
    simp only
    cases unclosed? row with
    | some label => exact hR.bind (hR.note _) fun _ => hR.note _
    | none => exact hR.note _

theorem addRow (laneId : Lane) (lane : OpenLane) (entry : Nat × List Admitted) :
    R (addRow grammar laneId lane entry) (addRow grammar laneId lane entry) :=
  hR.bind (hR.takeCloser lane entry.2) fun r => hR.addStatement laneId entry.1 r.1 r.2

theorem laneRoots (laneId : Lane) (rows : List (Nat × List Admitted)) :
    R (laneRoots grammar laneId rows) (laneRoots grammar laneId rows) :=
  hR.bind (hR.foldlM (hR.addRow laneId) _ rows) fun _ => hR.bind (hR.note _) fun _ => hR.pure _

/-- What every step keeps holds of a whole assembly. -/
theorem gridRoots [LawfulMonad m] (decisions : List Decision) (grid : Grid) :
    R (gridRoots decisions grid grammar) (gridRoots decisions grid grammar) :=
  hR.bind (hR.mapM (fun lane => hR.laneRoots lane _) grid.lanes) fun _ => hR.pure _

end Mirrors

/-! ## Recorded assemblies -/

/-- Whatever has been recorded before, the recorded computation does what the plain one does. -/
def Forgets (x : Recording α) (y : Noting α) : Prop := ∀ made, Prod.fst <$> x.run made = y

theorem mirrors_forgets : Mirrors Forgets where
  pure _ _ := rfl
  bind {_ _ x y f g} h hf made := by
    rw [StateT.run_bind, map_bind]
    calc (x.run made >>= fun p => Prod.fst <$> (f p.1).run p.2)
        = x.run made >>= fun p => g p.1 := bind_congr fun p => hf p.1 p.2
      _ = Prod.fst <$> x.run made >>= g := (bind_map_left Prod.fst (x.run made) g).symm
      _ = y >>= g := by rw [h made]
  note y made := by
    change Prod.fst <$> (StateT.lift y).run made = y
    rw [StateT.run_lift, bind_pure_comp, Functor.map_map]
    exact id_map y
  make _ _ := rfl

/-- The recorded assembly of a forest is the plain one. -/
theorem recorded_fst (decisions : List Decision) (grid : Grid) (grammar : Grammar) :
    (Recorded.ofDecisions decisions grid grammar).1 = ofDecisions decisions grid grammar := by
  have hrun : Prod.fst <$> (gridRoots decisions grid grammar : Recording (List SyntaxTree)).run [] = gridRoots decisions grid grammar :=
    mirrors_forgets.gridRoots decisions grid []
  exact congrArg (fun y : Noting (List SyntaxTree) => Assembly.mk (y.run .empty).1 (y.run .empty).2) hrun

/-! ## Checked assemblies -/

/-- Whatever has been noted before, the checked computation passes all its checks and does what the plain one does. -/
def Passes (x : Checking α) (y : Noting α) : Prop := ∀ n, x.run n = .ok (y.run n)

theorem mirrors_passes : Mirrors Passes where
  pure _ _ := rfl
  bind {_ _ x y f g} h hf n := by
    rw [StateT.run_bind, h n]
    exact hf (y.run n).1 (y.run n).2
  note _ _ := rfl
  make {info} h n := by
    change (Forest.checkNode info []).map (fun _ => (info, n)) = _
    rw [h]
    rfl

/-- Every node that an assembly makes passes its check, so the checked assembly of a forest is the plain one. -/
theorem build_eq (decisions : List Decision) (grid : Grid) (grammar : Grammar) :
    build decisions grid grammar = .ok (ofDecisions decisions grid grammar) := by
  have hrun : (gridRoots decisions grid grammar : Checking (List SyntaxTree)).run .empty = _ :=
    mirrors_passes.gridRoots decisions grid .empty
  unfold build
  rw [hrun]
  rfl

end Assembly

end TokenForest

import TokenForest.Proofs.Assembly.Gate

/-!
# Rows

Adding the symbols of a row one by one keeps the open path of the row sound: every edge is permitted, since a group or block goes
through the gate before anything is put into it. Each symbol becomes one terminal behind those that are there, or is noted.
-/

namespace TokenForest

namespace Assembly

variable {grammar : Grammar} {n n' : Notes}

/-- What adding some symbols does to an open path on which all edges are permitted. -/
structure PathStep (grammar : Grammar) (path : List OpenNode) (n : Notes) (items : List Admitted) (path' : List OpenNode)
    (n' : Notes) : Prop where
  grows : n.Grows n'
  sound : Sound (Permitted grammar) path'
  outermost : path'.getLast?.map (·.info) = path.getLast?.map (·.info)
  terminals : ∃ new, terminalsOn path' = terminalsOn path ++ new ∧ Placed n' items new

namespace PathStep

variable {x y : OpenNode} {path path' path'' : List OpenNode} {items items' : List Admitted} {item : Admitted}

theorem refl (h : Sound (Permitted grammar) path) (n : Notes) : PathStep grammar path n [] path n :=
  ⟨Notes.Grows.refl n, h, rfl, [], by simp, .nil⟩

theorem trans {n₁ n₂ : Notes} (h : PathStep grammar path n items path' n₁) (h' : PathStep grammar path' n₁ items' path'' n₂) :
    PathStep grammar path n (items ++ items') path'' n₂ := by
  obtain ⟨new, hnew, hplaced⟩ := h.terminals
  obtain ⟨new', hnew', hplaced'⟩ := h'.terminals
  refine ⟨h.grows.trans h'.grows, h'.sound, h'.outermost.trans h.outermost, new ++ new', ?_, ?_⟩
  · rw [hnew', hnew, List.append_assoc]
  · exact (hplaced.mono h'.grows).append hplaced'

/-- A symbol becomes a terminal below the innermost node. -/
theorem terminal (hs : Sound (Permitted grammar) (x :: path)) {ts : List SyntaxTree}
    (h : (terminalUnder grammar x.info item).run n = (ts, n')) : PathStep grammar (x :: path) n [item] (x.add ts :: path) n' := by
  obtain ⟨hgrows, hts, hplaced⟩ := terminalUnder_of_run h
  refine ⟨hgrows, hs.add hts, ?_, _, terminalsOn_add x ts path, hplaced⟩
  cases path with
  | nil => rfl
  | cons y path => simp [List.getLast?_cons_cons]

/-- A symbol opens a construct below the innermost node, and is its first terminal. -/
theorem opened (hs : Sound (Permitted grammar) (x :: path)) {child info : NodeInfo} {n₁ : Notes} {ts : List SyntaxTree}
    (hkind : child.kind = .nonterminal) (he : Entered grammar (some x.info) child n (some info) n₁)
    (h : (terminalUnder grammar info item).run n₁ = (ts, n')) :
    PathStep grammar (x :: path) n [item] (⟨info, ts⟩ :: x :: path) n' := by
  obtain ⟨hgrows, hts, hplaced⟩ := terminalUnder_of_run h
  obtain ⟨hp, hinfo⟩ := he.permits
  refine ⟨he.grows.trans hgrows, hs.push hts ?_ ?_, by simp [List.getLast?_cons_cons], _, rfl, hplaced⟩
  · intro y hy
    rw [List.head?_cons, Option.mem_some_iff] at hy
    exact hy ▸ hp
  · rw [hinfo]
    exact hkind

/-- A symbol at which no construct may be opened is lost. -/
theorem refused (hs : Sound (Permitted grammar) path) {parent : Option NodeInfo} {child : NodeInfo}
    (he : Entered grammar parent child n none n') (hid : child.id ∈ namesAt item.position) :
    PathStep grammar path n [item] path n' :=
  ⟨he.grows, hs, rfl, [], by simp, .lost (lost_of_entered he hid) .nil⟩

/-- The innermost node is closed. -/
theorem closed (hs : Sound (Permitted grammar) (x :: y :: path)) (n : Notes) :
    PathStep grammar (x :: y :: path) n [] (y.add [x.close] :: path) n := by
  refine ⟨Notes.Grows.refl n, hs.pop, ?_, [], ?_, .nil⟩
  · cases path with
    | nil => rfl
    | cons z path => simp [List.getLast?_cons_cons]
  · rw [List.append_nil, terminalsOn_pop (hs.constructs x (by simp))]

end PathStep

/-! ## Steps -/

/-- The group opened at a symbol. -/
def groupInfo (item : Admitted) (intent : Intent) : NodeInfo :=
  constructInfo s!"g_{item.position.label}" "group" intent item.position

/-- The block opened at a symbol. -/
def blockInfo (item : Admitted) (intent : Intent) : NodeInfo :=
  constructInfo s!"b_{item.position.label}" "block" intent item.position

/-- What a symbol does to the open path of a row: a group is opened at it, unless the gate leaves the group out, or it closes the
innermost group, or it is a terminal of the innermost node. -/
inductive ItemAdded (grammar : Grammar) (item : Admitted) (n : Notes) : List OpenNode → List OpenNode → Notes → Prop where
  | refused {x : OpenNode} {path : List OpenNode} {intent : Intent} {n' : Notes}
      (he : Entered grammar (some x.info) (groupInfo item intent) n none n') :
      ItemAdded grammar item n (x :: path) (x :: path) n'
  | opened {x : OpenNode} {path : List OpenNode} {intent : Intent} {info : NodeInfo} {n₁ n' : Notes} {ts : List SyntaxTree}
      (he : Entered grammar (some x.info) (groupInfo item intent) n (some info) n₁)
      (h : (terminalUnder grammar info item).run n₁ = (ts, n')) :
      ItemAdded grammar item n (x :: path) (⟨info, ts⟩ :: x :: path) n'
  | closed {x y : OpenNode} {path : List OpenNode} {n' : Notes} {ts : List SyntaxTree}
      (h : (terminalUnder grammar x.info item).run n = (ts, n')) :
      ItemAdded grammar item n (x :: y :: path) (y.add [(x.add ts).close] :: path) n'
  | terminal {x : OpenNode} {path : List OpenNode} {n' : Notes} {ts : List SyntaxTree}
      (h : (terminalUnder grammar x.info item).run n = (ts, n')) : ItemAdded grammar item n (x :: path) (x.add ts :: path) n'

/-- What the symbols of a row do to it one after the other; the last one may open a block. -/
inductive RowAdded (grammar : Grammar) : OpenRow → Notes → List Admitted → OpenRow → Option OpenNode → Notes → Prop where
  | nil {row : OpenRow} {n : Notes} : RowAdded grammar row n [] row none n
  | refused {row : OpenRow} {item : Admitted} {intent : Intent} {n n' : Notes}
      (hopens : grammar.opensBlock item.symbol.lexeme = true)
      (he : Entered grammar (some (parent row)) (blockInfo item intent) n none n') : RowAdded grammar row n [item] row none n'
  | opened {row : OpenRow} {item : Admitted} {intent : Intent} {info : NodeInfo} {n n₁ n' : Notes} {ts : List SyntaxTree}
      (hopens : grammar.opensBlock item.symbol.lexeme = true)
      (he : Entered grammar (some (parent row)) (blockInfo item intent) n (some info) n₁)
      (h : (terminalUnder grammar info item).run n₁ = (ts, n')) : RowAdded grammar row n [item] row (some ⟨info, ts⟩) n'
  | last {row row' : OpenRow} {item : Admitted} {n n' : Notes} (hopens : grammar.opensBlock item.symbol.lexeme = false)
      (h : ItemAdded grammar item n (openPath row) (openPath row') n') : RowAdded grammar row n [item] row' none n'
  | cons {row row₁ row' : OpenRow} {item next : Admitted} {rest : List Admitted} {block : Option OpenNode} {n n₁ n' : Notes}
      (h : ItemAdded grammar item n (openPath row) (openPath row₁) n₁)
      (hrest : RowAdded grammar row₁ n₁ (next :: rest) row' block n') : RowAdded grammar row n (item :: next :: rest) row' block n'

/-- The open path of a row begins with the node that the next symbol goes to. -/
theorem openPath_eq (row : OpenRow) : ∃ x path, openPath row = x :: path ∧ x.info = parent row ∧
    ∀ ts, openPath (addTrees row ts) = x.add ts :: path := by
  obtain ⟨statement, groups⟩ := row
  cases groups with
  | nil => exact ⟨statement, [], rfl, rfl, fun _ => rfl⟩
  | cons group rest => exact ⟨group.node, openPath ⟨statement, rest⟩, rfl, rfl, fun _ => rfl⟩

theorem startGroup_of_run {row row' : OpenRow} {previous : Intent} {item : Admitted}
    (h : (startGroup grammar row previous item).run n = (row', n')) : ItemAdded grammar item n (openPath row) (openPath row') n' := by
  obtain ⟨x, path, hpath, hx, _⟩ := openPath_eq row
  replace h := run_make h
  obtain ⟨r, n₁, hrun, h⟩ := run_bind h
  have he := entered_of_run hrun
  rw [← hx] at he
  cases r with
  | none =>
    obtain ⟨rfl, rfl⟩ := run_pure h
    rw [hpath]
    exact .refused he
  | some info =>
    obtain ⟨ts, n₂, hterm, h⟩ := run_bind h
    obtain ⟨rfl, rfl⟩ := run_pure h
    have hopen : openPath { row with groups := ⟨⟨info, ts⟩, (grammar.closer? item.symbol.lexeme).getD ""⟩ :: row.groups } =
        ⟨info, ts⟩ :: x :: path := by rw [← hpath]; rfl
    rw [hopen, hpath]
    exact .opened he hterm

theorem endGroup_of_run {row row' : OpenRow} {group : OpenGroup} {rest : List OpenGroup} {item : Admitted}
    (hrow : row.groups = group :: rest) (h : (endGroup grammar row group rest item).run n = (row', n')) :
    ItemAdded grammar item n (openPath row) (openPath row') n' := by
  obtain ⟨ts, n₁, hterm, h⟩ := run_bind h
  obtain ⟨rfl, rfl⟩ := run_pure h
  obtain ⟨y, path, hpath, _, hadd⟩ := openPath_eq { row with groups := rest }
  have hopen : openPath row = group.node :: y :: path := by rw [← hpath, openPath, hrow]; rfl
  rw [hopen, hadd]
  exact .closed hterm

theorem terminal_of_run {row row' : OpenRow} {item : Admitted}
    (h : (do return addTrees row (← terminalUnder grammar (parent row) item) : Noting OpenRow).run n = (row', n')) :
    ItemAdded grammar item n (openPath row) (openPath row') n' := by
  obtain ⟨x, path, hpath, hx, hadd⟩ := openPath_eq row
  obtain ⟨ts, n₁, hrun, h⟩ := run_bind h
  obtain ⟨rfl, rfl⟩ := run_pure h
  rw [hpath, hadd]
  rw [← hx] at hrun
  exact .terminal hrun

/-- Adding a symbol to a row. -/
theorem addItem_of_run {row row' : OpenRow} {previous : Intent} {item : Admitted}
    (h : (addItem grammar row previous item).run n = (row', n')) : ItemAdded grammar item n (openPath row) (openPath row') n' := by
  rw [addItem] at h
  split at h
  · exact startGroup_of_run h
  · split at h
    · rename_i group rest hrow
      split at h
      · exact endGroup_of_run hrow h
      · exact terminal_of_run h
    · exact terminal_of_run h

theorem startBlock_of_run {row : OpenRow} {item : Admitted} {block : Option OpenNode}
    (hopens : grammar.opensBlock item.symbol.lexeme = true) (h : (startBlock grammar row item).run n = (block, n')) :
    RowAdded grammar row n [item] row block n' := by
  replace h := run_make h
  obtain ⟨r, n₁, hrun, h⟩ := run_bind h
  have he := entered_of_run hrun
  cases r with
  | none =>
    obtain ⟨rfl, rfl⟩ := run_pure h
    exact .refused hopens he
  | some info =>
    obtain ⟨ts, n₂, hterm, h⟩ := run_bind h
    obtain ⟨rfl, rfl⟩ := run_pure h
    exact .opened hopens he hterm

/-- Adding the symbols of a row, of which the last one may open a block. -/
theorem addItems_of_run {items : List Admitted} {row row' : OpenRow} {previous : Intent} {block : Option OpenNode}
    (h : (addItems grammar row previous items).run n = ((row', block), n')) : RowAdded grammar row n items row' block n' := by
  induction items generalizing row previous n with
  | nil =>
    cases h
    exact .nil
  | cons item rest ih =>
    cases rest with
    | nil =>
      rw [addItems] at h
      split at h
      · rename_i hopens
        obtain ⟨b, n₁, hrun, h⟩ := run_bind h
        cases h
        exact startBlock_of_run hopens hrun
      · rename_i hopens
        obtain ⟨row₁, n₁, hrun, h⟩ := run_bind h
        cases h
        exact .last (by simpa using hopens) (addItem_of_run hrun)
    | cons next rest =>
      rw [addItems] at h
      · obtain ⟨row₁, n₁, hrun, h⟩ := run_bind h
        exact .cons (addItem_of_run hrun) (ih h)
      · simp

/-- A symbol leaves the outermost node what it is. -/
theorem ItemAdded.outermost {item : Admitted} {path path' : List OpenNode} (h : ItemAdded grammar item n path path' n') :
    path'.getLast?.map (·.info) = path.getLast?.map (·.info) := by
  cases h with
  | refused => rfl
  | opened => simp [List.getLast?_cons_cons]
  | closed =>
    rename_i x y path ts _
    cases path <;> simp [List.getLast?_cons_cons, OpenNode.add]
  | terminal =>
    rename_i x path ts _
    cases path <;> simp [List.getLast?_cons_cons, OpenNode.add]

/-- A symbol does not change what the statement of its row says. -/
theorem ItemAdded.statement {item : Admitted} {row row' : OpenRow} (h : ItemAdded grammar item n (openPath row) (openPath row') n') :
    row'.statement.info = row.statement.info := by
  have houter := h.outermost
  rw [openPath, openPath, List.getLast?_concat, List.getLast?_concat] at houter
  exact Option.some.inj houter

/-- The symbols of a row do not change what its statement says. -/
theorem RowAdded.statement {row row' : OpenRow} {items : List Admitted} {block : Option OpenNode}
    (h : RowAdded grammar row n items row' block n') : row'.statement.info = row.statement.info := by
  induction h with
  | nil => rfl
  | refused => rfl
  | opened => rfl
  | last _ h => exact h.statement
  | cons h _ ih => exact ih.trans h.statement

/-! ## Permitted edges -/

/-- A symbol keeps all edges of the open path permitted. -/
theorem ItemAdded.pathStep {path path' : List OpenNode} {item : Admitted} (h : ItemAdded grammar item n path path' n')
    (hs : Sound (Permitted grammar) path) : PathStep grammar path n [item] path' n' := by
  cases h with
  | refused he => exact PathStep.refused hs he (by simp [groupInfo, constructInfo, namesAt])
  | opened he hterm => exact PathStep.opened hs rfl he hterm
  | closed hterm =>
    have hstep := PathStep.terminal hs hterm
    exact hstep.trans (PathStep.closed hstep.sound _)
  | terminal hterm => exact PathStep.terminal hs hterm

/-- The symbols of a row keep all edges of its open path permitted. -/
theorem RowAdded.pathStep {row row' : OpenRow} {items : List Admitted} {block : Option OpenNode}
    (h : RowAdded grammar row n items row' block n') (hs : Sound (Permitted grammar) (openPath row)) :
    PathStep grammar (openPath row) n items (block.toList ++ openPath row') n' := by
  induction h with
  | nil => exact PathStep.refl hs _
  | refused _ he => exact PathStep.refused hs he (by simp [blockInfo, constructInfo, namesAt])
  | @opened row _ _ _ _ _ _ _ _ he hterm =>
    obtain ⟨x, path, hpath, hx, _⟩ := openPath_eq row
    rw [← hx] at he
    rw [hpath] at hs ⊢
    exact PathStep.opened hs rfl he hterm
  | last _ h => exact h.pathStep hs
  | cons h _ ih =>
    have hstep := h.pathStep hs
    exact hstep.trans (ih hstep.sound)

end Assembly

end TokenForest

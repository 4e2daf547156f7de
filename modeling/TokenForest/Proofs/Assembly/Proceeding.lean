import TokenForest.Proofs.Assembly.Growth
import TokenForest.Proofs.Assembly.Matching
import TokenForest.Proofs.Position

/-!
# One row in a whole forest

A row is added to a lane that the rows above have made, and the rows below and the other lanes go on from there: they leave the trees
that are there as they are, apart from what comes into open blocks, they take back no note, and they warn of open groups at positions
of their own only. So what is to be shown of the row of a forest is shown where the row is added.
-/

namespace TokenForest

namespace Assembly

open SyntaxTree (Grown)

variable {grammar : Grammar} {n n' n'' : Notes} {lane lane' lane'' : OpenLane} {items left : List Admitted} {laneId : Lane}
  {P Q : Position → Prop}

/-! ## Notes on open groups -/

/-- The second notes continue the first ones, and what they warn of open groups is about such positions. -/
structure NotedIn (P : Position → Prop) (n n' : Notes) : Prop where
  mismatches : n.mismatches <+: n'.mismatches
  warnings : ∃ ws, n'.warnings = n.warnings ++ ws ∧ ∀ w ∈ ws, ofKind "unclosed_group:" w = true → ∃ p, P p ∧ w = groupText p

namespace NotedIn

theorem refl (P : Position → Prop) (n : Notes) : NotedIn P n n := ⟨List.prefix_refl _, [], by simp, by simp⟩

theorem trans (h : NotedIn P n n') (h' : NotedIn P n' n'') : NotedIn P n n'' := by
  obtain ⟨ws, hws, hP⟩ := h.warnings
  obtain ⟨ws', hws', hP'⟩ := h'.warnings
  refine ⟨h.mismatches.trans h'.mismatches, ws ++ ws', by rw [hws', hws, List.append_assoc], ?_⟩
  intro w hw
  rcases List.mem_append.1 hw with hw | hw
  · exact hP w hw
  · exact hP' w hw

theorem mono (h : NotedIn P n n') (hPQ : ∀ p, P p → Q p) : NotedIn Q n n' := by
  obtain ⟨ws, hws, hP⟩ := h.warnings
  refine ⟨h.mismatches, ws, hws, fun w hw hkind => ?_⟩
  obtain ⟨p, hp, rfl⟩ := hP w hw hkind
  exact ⟨p, hPQ p hp, rfl⟩

/-- One more warning. -/
theorem warn (P : Position → Prop) (n : Notes) {text : String}
    (h : ofKind "unclosed_group:" text = true → ∃ p, P p ∧ text = groupText p) : NotedIn P n (n.warn text) := by
  refine ⟨List.prefix_refl _, [text], rfl, ?_⟩
  intro w hw
  rw [List.mem_singleton.1 hw]
  exact h

theorem of_warnings_eq (P : Position → Prop) {ms : List Mismatch} (hwarnings : n'.warnings = n.warnings)
    (hmismatches : n'.mismatches = n.mismatches ++ ms) : NotedIn P n n' :=
  ⟨hmismatches ▸ List.prefix_append _ _, [], by simp [hwarnings], by simp⟩

/-- Nothing that was noted is taken back. -/
theorem subset_warnings (h : NotedIn P n n') : ∀ w ∈ n.warnings, w ∈ n'.warnings := by
  obtain ⟨ws, hws, _⟩ := h.warnings
  intro w hw
  rw [hws]
  exact List.mem_append_left _ hw

/-- A warning about an open group was there before or is about such a position. -/
theorem mem_or_of_groupText (h : NotedIn P n n') {p : Position} (hp : groupText p ∈ n'.warnings) : groupText p ∈ n.warnings ∨ P p := by
  obtain ⟨ws, hws, hP⟩ := h.warnings
  rw [hws] at hp
  rcases List.mem_append.1 hp with hp | hp
  · exact Or.inl hp
  · obtain ⟨q, hq, htext⟩ := hP _ hp (ofKind_append _ _)
    have hlists : "unclosed_group:".toList ++ p.label.toList = "unclosed_group:".toList ++ q.label.toList := by
      rw [← String.toList_append, ← String.toList_append]
      exact congrArg String.toList htext
    have hlabel := String.toList_inj.1 (List.append_cancel_left hlists)
    exact Or.inr (Position.label_injective hlabel ▸ hq)

end NotedIn

theorem Quiet.notedIn {R : Mismatch → Prop} (h : Quiet R n n') (P : Position → Prop) : NotedIn P n n' := by
  obtain ⟨ms, hms, _⟩ := h.mismatches
  exact .of_warnings_eq P h.warnings hms

theorem Entered.notedIn {parent : Option NodeInfo} {child : NodeInfo} {r : Option NodeInfo}
    (h : Entered grammar parent child n r n') (P : Position → Prop) : NotedIn P n n' := by
  obtain ⟨hwarnings, ms, hms, _⟩ := h.quiet
  exact .of_warnings_eq P hwarnings hms

/-! ## Where open groups stand -/

/-- An open node of a row stands at the symbol that was added, or was open before. -/
theorem ItemAdded.positions {item : Admitted} {path path' : List OpenNode} (h : ItemAdded grammar item n path path' n') :
    ∀ x ∈ path', x.info.position = some item.position ∨ ∃ y ∈ path, y.info = x.info := by
  cases h with
  | refused => exact fun x hx => Or.inr ⟨x, hx, rfl⟩
  | opened he =>
    obtain ⟨_, hinfo⟩ := he.permits
    intro x hx
    rcases List.mem_cons.1 hx with rfl | hx
    · left
      rw [hinfo]
      rfl
    · exact Or.inr ⟨x, hx, rfl⟩
  | closed =>
    intro x hx
    rcases List.mem_cons.1 hx with rfl | hx
    · exact Or.inr ⟨_, List.mem_cons_of_mem _ List.mem_cons_self, rfl⟩
    · exact Or.inr ⟨x, List.mem_cons_of_mem _ (List.mem_cons_of_mem _ hx), rfl⟩
  | terminal =>
    intro x hx
    rcases List.mem_cons.1 hx with rfl | hx
    · exact Or.inr ⟨_, List.mem_cons_self, rfl⟩
    · exact Or.inr ⟨x, List.mem_cons_of_mem _ hx, rfl⟩

/-- An open node of a row stands at one of the symbols that were added, or was open before. -/
theorem RowAdded.positions {row row' : OpenRow} {block : Option OpenNode} (h : RowAdded grammar row n items row' block n') :
    ∀ x ∈ openPath row', (∃ item ∈ items, x.info.position = some item.position) ∨ ∃ y ∈ openPath row, y.info = x.info := by
  induction h with
  | nil => exact fun x hx => Or.inr ⟨x, hx, rfl⟩
  | refused => exact fun x hx => Or.inr ⟨x, hx, rfl⟩
  | opened => exact fun x hx => Or.inr ⟨x, hx, rfl⟩
  | last _ h => exact fun x hx => (h.positions x hx).imp_left fun hposition => ⟨_, List.mem_singleton_self _, hposition⟩
  | cons h _ ih =>
    intro x hx
    rcases ih x hx with ⟨item, hitem, hposition⟩ | ⟨y, hy, hinfo⟩
    · exact Or.inl ⟨item, List.mem_cons_of_mem _ hitem, hposition⟩
    · rcases h.positions y hy with hposition | hbefore
      · exact Or.inl ⟨_, List.mem_cons_self, hinfo ▸ hposition⟩
      · exact Or.inr (hinfo ▸ hbefore)

/-- A group that is open at the end of a row was opened at one of its symbols. -/
theorem exists_item_of_unclosed? {number : Nat} {first : Admitted} {rest : List Admitted} {row : OpenRow} {block : Option OpenNode}
    (h : RowAdded grammar (emptyRow laneId number first rest) n (classified grammar (first :: rest)) row block n') {label : String}
    (hlabel : unclosed? row = some label) : ∃ item ∈ first :: rest, label = item.position.label := by
  obtain ⟨group, hgroup, hposition⟩ := Option.bind_eq_some_iff.1 hlabel
  obtain ⟨p, hp, rfl⟩ := Option.map_eq_some_iff.1 hposition
  have hmem : group.node ∈ openPath row :=
    List.mem_append_left _ (List.mem_map_of_mem (List.mem_of_getLast? hgroup))
  rcases h.positions _ hmem with ⟨item, hitem, hat⟩ | ⟨y, hy, hinfo⟩
  · obtain ⟨original, horiginal, hsame⟩ := mem_classified hitem
    rw [hp, ← hsame, Option.some.injEq] at hat
    exact ⟨original, horiginal, by rw [hat]⟩
  · rw [List.mem_singleton.1 hy] at hinfo
    rw [← hinfo] at hp
    exact ⟨first, by simp, by rw [← Option.some.inj hp]⟩

/-! ## Rows -/

/-- A lane goes on from one state to another, and warns of open groups at such positions only. -/
structure Proceeds (P : Position → Prop) (lane : OpenLane) (n : Notes) (lane' : OpenLane) (n' : Notes) : Prop where
  extended : Extended lane lane'
  blocked : Blocked lane'
  noted : NotedIn P n n'

theorem Proceeds.trans (h : Proceeds P lane n lane' n') (h' : Proceeds P lane' n' lane'' n'') : Proceeds P lane n lane'' n'' :=
  ⟨h.extended.trans h'.extended, h'.blocked, h.noted.trans h'.noted⟩

/-- What is left of a row behind a closer is part of it. -/
theorem CloserTaken.mem_of_mem_left (h : CloserTaken grammar lane n items lane' left n') : ∀ item ∈ left, item ∈ items := by
  cases h with
  | nil => exact fun item hitem => hitem
  | passed => exact fun item hitem => hitem
  | stray => exact fun item hitem => hitem
  | closed => exact fun item hitem => List.mem_cons_of_mem _ hitem

/-- The start of a row is not warned about as an open group. -/
theorem CloserTaken.notedIn (h : CloserTaken grammar lane n items lane' left n') (P : Position → Prop) : NotedIn P n n' := by
  cases h with
  | nil => exact .refl P n
  | passed => exact .refl P n
  | stray =>
    apply NotedIn.warn P n
    rw [ofKind_append_of_ne (by decide) (by decide)]
    simp
  | closed _ hterm => exact (terminalUnder_quiet hterm).1.notedIn P

theorem CloserTaken.proceeds (h : CloserTaken grammar lane n items lane' left n') (hb : Blocked lane) (P : Position → Prop) :
    Proceeds P lane n lane' n' := by
  obtain ⟨hextended, hblocked⟩ := h.extended hb
  exact ⟨hextended, hblocked, h.notedIn P⟩

/-- The notes on the symbols of a row are about groups at them, and about none when all groups are closed. -/
theorem RowAdded.notedIn {number : Nat} {first : Admitted} {rest : List Admitted} {row : OpenRow} {block : Option OpenNode}
    (h : RowAdded grammar (emptyRow laneId number first rest) n (classified grammar (first :: rest)) row block n')
    (hwarned : Warned row n' n'') (hP : unclosed? row ≠ none → ∀ item ∈ first :: rest, P item.position) : NotedIn P n n'' := by
  obtain ⟨ms, hdone⟩ := h.done (unblocked_emptyRow laneId number first rest)
  have hadded : NotedIn P n n' := .of_warnings_eq P hdone.warnings hdone.mismatches
  cases hwarned with
  | closed => exact hadded
  | unclosed hlabel =>
    apply hadded.trans
    apply NotedIn.warn P n'
    intro _
    obtain ⟨item, hitem, rfl⟩ := exists_item_of_unclosed? h hlabel
    exact ⟨item.position, hP (by simp [hlabel]) item hitem, rfl⟩

theorem addStatement_notedIn {number : Nat} (hP : ∀ item ∈ items, P item.position)
    (h : (addStatement grammar laneId number lane items).run n = (lane', n')) : NotedIn P n n' := by
  cases items with
  | nil =>
    cases h
    exact .refl P n
  | cons first rest =>
    obtain ⟨row, block, n₁, n₂, hadded, hwarned, h⟩ := rowAdded_of_run h
    obtain ⟨r, he, _⟩ := joined_of_run h
    exact (hadded.notedIn hwarned fun _ => hP).trans (he.notedIn P)

theorem addStatement_proceeds {number : Nat} (hb : Blocked lane) (hP : ∀ item ∈ items, P item.position)
    (h : (addStatement grammar laneId number lane items).run n = (lane', n')) : Proceeds P lane n lane' n' := by
  have hnoted := addStatement_notedIn hP h
  cases items with
  | nil =>
    cases h
    exact ⟨Extended.refl lane, hb, hnoted⟩
  | cons first rest =>
    obtain ⟨row, block, n₁, n₂, hadded, _, h⟩ := rowAdded_of_run h
    obtain ⟨hextended, hblocked⟩ := extended_of_joined hb hadded.isBlock h
    exact ⟨hextended, hblocked, hnoted⟩

theorem addRow_proceeds {entry : Nat × List Admitted} (hb : Blocked lane) (hP : ∀ item ∈ entry.2, P item.position)
    (h : (addRow grammar laneId lane entry).run n = (lane', n')) : Proceeds P lane n lane' n' := by
  obtain ⟨⟨lane₁, left⟩, n₁, hrun, h⟩ := run_bind h
  have htaken := closerTaken_of_run hrun
  have hfirst := htaken.proceeds hb P
  exact hfirst.trans (addStatement_proceeds hfirst.blocked (fun item hitem => hP item (htaken.mem_of_mem_left item hitem)) h)

theorem addRows_proceed {rows : List (Nat × List Admitted)} (hb : Blocked lane)
    (hP : ∀ entry ∈ rows, ∀ item ∈ entry.2, P item.position)
    (h : (rows.foldlM (addRow grammar laneId) lane).run n = (lane', n')) : Proceeds P lane n lane' n' := by
  induction rows generalizing lane n with
  | nil =>
    cases h
    exact ⟨Extended.refl _, hb, .refl P _⟩
  | cons entry rows ih =>
    rw [List.foldlM_cons] at h
    obtain ⟨lane₁, n₁, hrun, h⟩ := run_bind h
    have hfirst := addRow_proceeds hb (hP entry (by simp)) hrun
    exact hfirst.trans (ih hfirst.blocked (fun e he => hP e (by simp [he])) h)

/-! ## Lanes -/

theorem warnUnclosed_notedIn {blocks : List OpenBlock} {u : Unit}
    (h : (blocks.forM (fun b => (modify fun n => n.warn s!"unclosed_block:{b.node.info.id}" : Noting Unit))).run n = (u, n'))
    (P : Position → Prop) : NotedIn P n n' := by
  induction blocks generalizing n with
  | nil =>
    cases h
    exact .refl P _
  | cons b blocks ih =>
    obtain ⟨_, n₁, hwarn, h⟩ := run_bind h
    cases hwarn
    refine NotedIn.trans (NotedIn.warn P n ?_) (ih h)
    rw [ofKind_append_of_ne (by decide) (by decide)]
    simp

theorem blocked_empty : Blocked ⟨[], []⟩ := by simp [Blocked]

theorem laneRoots_notedIn {rows : List (Nat × List Admitted)} {roots : List SyntaxTree}
    (hP : ∀ entry ∈ rows, ∀ item ∈ entry.2, P item.position) (h : (laneRoots grammar laneId rows).run n = (roots, n')) :
    NotedIn P n n' := by
  obtain ⟨_, n₁, hrun, h⟩ := run_bind h
  obtain ⟨_, n₂, hwarn, h⟩ := run_bind h
  cases h
  exact (addRows_proceed blocked_empty hP hrun).noted.trans (warnUnclosed_notedIn hwarn P)

/-! ## One row among others -/

/-- The position is not in this row of the lane. -/
def Elsewhere (laneId : Lane) (number : Nat) (p : Position) : Prop := ¬(p.lane = laneId ∧ p.row = number)

/-- What stands in the roots of a lane stands among the finished roots, where it has more children below blocks and is pruned. -/
def Finished (lane : OpenLane) (roots : List SyntaxTree) : Prop :=
  ∀ r ∈ closeLane lane, ∀ s ∈ r.subtrees, ∃ s', Grown IsBlock s s' ∧
    ∀ kept, s'.prune? = some kept → ∃ root ∈ roots, kept ∈ root.subtrees

/-- A row is added in a run that comes to these roots: what the run notes on open groups before the row and behind it is about groups
that are not in the row, and the roots have what stood in the lane behind the row. -/
inductive AddedWithin (grammar : Grammar) (laneId : Lane) (entry : Nat × List Admitted) (n : Notes) (roots : List SyntaxTree)
    (n' : Notes) : Prop
  | mk {lane lane' : OpenLane} {n₁ n₂ : Notes} (before : NotedIn (Elsewhere laneId entry.1) n n₁)
      (run : (addRow grammar laneId lane entry).run n₁ = (lane', n₂)) (behind : NotedIn (Elsewhere laneId entry.1) n₂ n')
      (finished : Finished lane' roots) : AddedWithin grammar laneId entry n roots n'

variable {entry : Nat × List Admitted} {roots : List SyntaxTree}

/-- The same within a longer run that comes to more roots. -/
theorem AddedWithin.mono (h : AddedWithin grammar laneId entry n roots n') {n₀ : Notes} {roots' : List SyntaxTree}
    (hbefore : NotedIn (Elsewhere laneId entry.1) n₀ n) (hbehind : NotedIn (Elsewhere laneId entry.1) n' n'')
    (hroots : ∀ r ∈ roots, r ∈ roots') : AddedWithin grammar laneId entry n₀ roots' n'' := by
  obtain ⟨before, run, behind, finished⟩ := h
  refine ⟨hbefore.trans before, run, behind.trans hbehind, ?_⟩
  intro r hr s hs
  obtain ⟨s', hgrown, hkept⟩ := finished r hr s hs
  refine ⟨s', hgrown, fun kept hprune => ?_⟩
  obtain ⟨root, hroot, hmem⟩ := hkept kept hprune
  exact ⟨root, hroots root hroot, hmem⟩

/-- The roots of a lane that goes on to its end and is pruned. -/
theorem Extended.finished (h : Extended lane lane') (hown : ∀ r ∈ closeLane lane', r.OwnedByConstructs) :
    Finished lane (SyntaxTree.pruneAll (closeLane lane')) := by
  intro r hr s hs
  obtain ⟨r', hr', hgrown⟩ := h r hr
  obtain ⟨s', hs', hgrown'⟩ := hgrown.exists_subtree s hs
  refine ⟨s', hgrown', fun kept hprune => ?_⟩
  obtain ⟨root, hroot, hmem⟩ := SyntaxTree.exists_prune?_of_mem_subtrees (hown r' hr') hs' hprune
  rw [SyntaxTree.pruneAll_eq]
  exact ⟨root, List.mem_filterMap.2 ⟨r', hr', hroot⟩, hmem⟩

/-- A row of a lane is added to what the rows above have made, and the rows below go on from there. -/
theorem laneRoots_addedWithin {rows : List (Nat × List Admitted)} (hentry : entry ∈ rows)
    (hplace : ∀ e ∈ rows, ∀ item ∈ e.2, item.position.lane = laneId ∧ item.position.row = e.1)
    (hnodup : (rows.map (·.1)).Nodup) (h : (laneRoots grammar laneId rows).run n = (roots, n')) :
    AddedWithin grammar laneId entry n roots n' := by
  obtain ⟨lane₃, n₃, hrun, h⟩ := run_bind h
  obtain ⟨_, n₄, hwarn, h⟩ := run_bind h
  cases h
  have hown : ∀ r ∈ closeLane lane₃, r.OwnedByConstructs := by
    obtain ⟨_, _, _, hfollows⟩ := addRows_follows (Follows.empty n) hplace hnodup hrun
    exact fun r hr => (hfollows.linked.closeLane r hr).mono fun _ _ hb => hb.1
  obtain ⟨above, below, rfl⟩ := List.append_of_mem hentry
  rw [List.map_append, List.map_cons, List.nodup_middle, List.nodup_cons, ← List.map_append] at hnodup
  have helsewhere : ∀ e ∈ above ++ below, ∀ item ∈ e.2, Elsewhere laneId entry.1 item.position := by
    rintro e he item hitem ⟨_, hrow⟩
    have hmem : e ∈ above ++ entry :: below := by
      rcases List.mem_append.1 he with he | he <;> simp [he]
    rw [(hplace e hmem item hitem).2] at hrow
    exact hnodup.1 (hrow ▸ List.mem_map_of_mem he)
  rw [List.foldlM_append] at hrun
  obtain ⟨lane₁, n₁, habove, hrun⟩ := run_bind hrun
  rw [List.foldlM_cons] at hrun
  obtain ⟨lane₂, n₂, hadded, hbelow⟩ := run_bind hrun
  have hfirst := addRows_proceed blocked_empty (fun e he => helsewhere e (by simp [he])) habove
  have hmiddle : Proceeds (fun _ => True) lane₁ n₁ lane₂ n₂ := addRow_proceeds hfirst.blocked (by simp) hadded
  have hlast := addRows_proceed hmiddle.blocked (fun e he => helsewhere e (by simp [he])) hbelow
  exact ⟨hfirst.noted, hadded, hlast.noted.trans (warnUnclosed_notedIn hwarn _), hlast.extended.finished hown⟩

variable {decisions : List Decision} {grid : Grid}

theorem lanes_notedIn {lanes : List Lane} {trees : List (List SyntaxTree)} (hP : ∀ lane ∈ lanes, ∀ p : Position, p.lane = lane → P p)
    (h : (lanes.mapM (fun lane => laneRoots grammar lane (admittedRows grid decisions lane))).run n = (trees, n')) :
    NotedIn P n n' := by
  induction lanes generalizing n trees with
  | nil =>
    cases h
    exact .refl P _
  | cons other lanes ih =>
    obtain ⟨_, _, n₁, rfl, hfirst, hothers⟩ := run_mapM_cons h
    have hrows : ∀ e ∈ admittedRows grid decisions other, ∀ item ∈ e.2, P item.position := fun e he item hitem =>
      hP other (by simp) _ (place_of_mem_admittedRows he item hitem).1
    exact (laneRoots_notedIn hrows hfirst).trans (ih (fun l hl => hP l (by simp [hl])) hothers)

/-- A row of one of some lanes. -/
theorem lanes_addedWithin {lanes : List Lane} {trees : List (List SyntaxTree)} (hnodup : lanes.Nodup) (hlane : laneId ∈ lanes)
    (hentry : entry ∈ admittedRows grid decisions laneId)
    (h : (lanes.mapM (fun lane => laneRoots grammar lane (admittedRows grid decisions lane))).run n = (trees, n')) :
    AddedWithin grammar laneId entry n trees.flatten n' := by
  induction lanes generalizing n trees with
  | nil => simp at hlane
  | cons other lanes ih =>
    rw [List.nodup_cons] at hnodup
    obtain ⟨first, others, n₁, rfl, hfirst, hothers⟩ := run_mapM_cons h
    rcases List.mem_cons.1 hlane with rfl | hmem
    · have hrow := laneRoots_addedWithin hentry (fun e he => place_of_mem_admittedRows he) (nodup_admittedRows laneId) hfirst
      have hlater : NotedIn (Elsewhere laneId entry.1) n₁ n' := by
        apply lanes_notedIn _ hothers
        rintro lane hother p rfl ⟨hsame, _⟩
        exact hnodup.1 (hsame ▸ hother)
      exact hrow.mono (.refl _ n) hlater fun r hr => List.mem_append_left _ hr
    · have hearlier : NotedIn (Elsewhere laneId entry.1) n n₁ := by
        apply laneRoots_notedIn _ hfirst
        rintro e he item hitem ⟨hsame, _⟩
        rw [(place_of_mem_admittedRows he item hitem).1] at hsame
        exact hnodup.1 (hsame ▸ hmem)
      exact (ih hnodup.2 hmem hothers).mono hearlier (.refl _ n') fun r hr => List.mem_append_right _ hr

/-- A row of a grid is added in the run that comes to the forest. -/
theorem ofDecisions_addedWithin (decisions : List Decision) (grid : Grid) (grammar : Grammar) (hlane : laneId ∈ grid.lanes)
    (hentry : entry ∈ admittedRows grid decisions laneId) : AddedWithin grammar laneId entry .empty
      (ofDecisions decisions grid grammar).roots (ofDecisions decisions grid grammar).notes := by
  obtain ⟨trees, hrun, hroots⟩ := exists_run_ofDecisions decisions grid grammar
  rw [hroots]
  exact lanes_addedWithin (Grouping.nodup_eraseDups _) hlane hentry hrun

end Assembly

end TokenForest

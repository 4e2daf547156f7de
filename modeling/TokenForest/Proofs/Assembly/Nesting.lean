import TokenForest.Proofs.Assembly.Growth

/-!
# Groups and nested brackets

Brackets that are well nested, each with the closer of its opener, become groups that are nested in the same way: adding such symbols to
a row puts a list of finished trees into the node that is open, one for each symbol outside all brackets and one for each outermost
pair, and leaves no group open. This holds from the first symbol on and inside every group, so it is shown for any row that such
symbols are added to, and for whatever symbols follow.
-/

namespace TokenForest

/-! ## Lexemes -/

namespace Grammar

variable {grammar : Grammar} {opener closer : String}

theorem any_of_lookup {table : List (String × String)} (h : table.lookup opener = some closer) :
    table.any (·.1 == opener) = true ∧ table.any (·.2 == closer) = true := by
  obtain ⟨front, back, rfl, _⟩ := List.lookup_eq_some_iff.1 h
  simp

/-- What has a closer is an opener, and its closer closes. -/
theorem opens_and_closes_of_closer? (h : grammar.closer? opener = some closer) :
    grammar.opens opener = true ∧ grammar.closes closer = true := by
  have hlookup : grammar.inlinePairs.lookup opener = some closer ∨ grammar.blockPairs.lookup opener = some closer := by
    unfold closer? at h
    split at h
    · rename_i found hfound
      split at h
      · exact Or.inr h
      · exact Or.inl (hfound.trans h)
    · exact Or.inr h
  unfold opens closes opensGroup closesGroup opensBlock closesBlock
  rcases hlookup with hlookup | hlookup
  · simp [any_of_lookup hlookup]
  · simp [any_of_lookup hlookup]

end Grammar

namespace Assembly

variable {grammar : Grammar} {n n' n₁ : Notes} {item : Admitted} {items : List Admitted} {ts us : List SyntaxTree}

/-- Well nested brackets do not begin with a closer. -/
theorem WellNested.head (hroles : grammar.BracketsApart) {lexemes : List String}
    (h : WellNested grammar lexemes) : ∀ lexeme ∈ lexemes.head?, grammar.closes lexeme = false := by
  cases h with
  | nil => simp
  | plain _ hcloses => simpa using hcloses
  | pair hpair => simpa using hroles _ (Grammar.opens_and_closes_of_closer? hpair).1

/-! ## Grouped trees -/

/-- The symbol as it was admitted, before it has an intent in a row. -/
def unclassified (item : Admitted) : Admitted := { item with intent := .unresolved }

/-- The trees do not tell which intents the symbols have in the row. -/
theorem Grouped.unclassified (h : Grouped grammar items ts) : Grouped grammar (items.map unclassified) ts := by
  induction h with
  | nil => exact .nil
  | plain hopens hcloses hleaf _ ih => exact .plain hopens hcloses hleaf ih
  | pair hpair hgroup hfirst hlast _ _ ihinner ihrest =>
    rw [List.map_cons, List.map_append, List.map_cons]
    exact .pair hpair ⟨hgroup.id, hgroup.kind, hgroup.label, hgroup.position⟩ hfirst hlast ihinner ihrest

/-! ## Steps that leave nothing out -/

theorem ItemAdded.grows {path path' : List OpenNode} (h : ItemAdded grammar item n path path' n') : n.Grows n' := by
  cases h with
  | refused he => exact he.grows
  | opened he hterm => exact he.grows.trans (terminalUnder_of_run hterm).1
  | closed hterm => exact (terminalUnder_of_run hterm).1
  | terminal hterm => exact (terminalUnder_of_run hterm).1

theorem RowAdded.grows {row row' : OpenRow} {block : Option OpenNode} (h : RowAdded grammar row n items row' block n') :
    n.Grows n' := by
  induction h with
  | nil => exact Notes.Grows.refl _
  | refused _ he => exact he.grows
  | opened _ he hterm => exact he.grows.trans (terminalUnder_of_run hterm).1
  | last _ h => exact h.grows
  | cons h _ ih => exact h.grows.trans ih

/-- A node is admitted when nothing is left out. -/
theorem Entered.exists_of_kept {parent : Option NodeInfo} {child : NodeInfo} {r : Option NodeInfo}
    (h : Entered grammar parent child n r n') (hkept : n'.mismatches = n.mismatches) :
    ∃ info, r = some info ∧ info = { child with intent := info.intent } := by
  cases h with
  | admitted => exact ⟨child, rfl, rfl⟩
  | coerced => exact ⟨_, rfl, rfl⟩
  | leftOut => simp [Notes.leaveOut] at hkept

/-- A symbol becomes its terminal when nothing is left out. -/
theorem exists_leaf_of_kept {parent : NodeInfo} (h : (terminalUnder grammar parent item).run n = (ts, n'))
    (hkept : n'.mismatches = n.mismatches) : ∃ t, ts = [t] ∧ IsLeaf item t := by
  obtain ⟨r, he, rfl⟩ := leaf_of_run h
  obtain ⟨info, rfl, hinfo⟩ := he.exists_of_kept hkept
  exact ⟨_, rfl, info.intent, by rw [hinfo]⟩

/-- A construct and the symbol that it begins with, when nothing is left out. -/
theorem Entered.begun_of_kept {parent : Option NodeInfo} {child info : NodeInfo} (h : Entered grammar parent child n (some info) n₁)
    (hterm : (terminalUnder grammar info item).run n₁ = (ts, n')) (hkept : n'.mismatches = n.mismatches) :
    info = { child with intent := info.intent } ∧ ∃ t, ts = [t] ∧ IsLeaf item t := by
  obtain ⟨_, hsecond⟩ := h.grows.kept (terminalUnder_of_run hterm).1 hkept
  exact ⟨h.permits.2, exists_leaf_of_kept hterm hsecond⟩

/-! ## Rows -/

variable {row row' row₁ : OpenRow} {previous : Intent} {block : Option OpenNode}

@[simp] theorem addTrees_nil (row : OpenRow) : addTrees row [] = row := by
  obtain ⟨statement, groups⟩ := row
  cases groups <;> simp [addTrees, OpenNode.add]

@[simp] theorem addTrees_addTrees (row : OpenRow) (ts us : List SyntaxTree) :
    addTrees (addTrees row ts) us = addTrees row (ts ++ us) := by
  obtain ⟨statement, groups⟩ := row
  cases groups <;> simp [addTrees, OpenNode.add]

/-- The closer that the innermost open group waits for is a bracket. -/
def AwaitsBracket (grammar : Grammar) (row : OpenRow) : Prop := ∀ group ∈ row.groups.head?, grammar.closes group.closer = true

theorem AwaitsBracket.addTrees (h : AwaitsBracket grammar row) (ts : List SyntaxTree) : AwaitsBracket grammar (addTrees row ts) := by
  obtain ⟨statement, groups⟩ := row
  cases groups with
  | nil => simp [AwaitsBracket, Assembly.addTrees]
  | cons group rest =>
    intro found hfound
    obtain rfl := Option.some.inj hfound
    exact h group rfl

/-- A symbol that does not open a block at the end of the row is added before the others. -/
theorem addItems_cons (h : items = [] → grammar.opensBlock item.symbol.lexeme = false) :
    addItems grammar row previous (item :: items) = (do
      let row ← addItem grammar row previous item
      addItems grammar row item.intent items) := by
  cases items with
  | nil => simp [addItems, h rfl]
  | cons next rest => rfl

/-- What opens no bracket opens no block. -/
theorem opensBlock_of_not_opens {lexeme : String} (h : grammar.opens lexeme = false) : grammar.opensBlock lexeme = false := by
  unfold Grammar.opens at h
  rw [Bool.or_eq_false_iff] at h
  exact h.2

/-- A symbol that is no bracket becomes a terminal of the node that is open. -/
theorem addItem_plain (hopens : grammar.opens item.symbol.lexeme = false) (hcloses : grammar.closes item.symbol.lexeme = false)
    (hrow : AwaitsBracket grammar row) (h : (addItem grammar row previous item).run n = (row', n'))
    (hkept : n'.mismatches = n.mismatches) : ∃ t, IsLeaf item t ∧ row' = addTrees row [t] := by
  have hterminal : addItem grammar row previous item = (do return addTrees row (← terminalUnder grammar (parent row) item)) := by
    unfold addItem
    rw [hopens]
    cases hgroups : row.groups with
    | nil => rfl
    | cons group rest =>
      have hne : item.symbol.lexeme ≠ group.closer := by
        intro heq
        have hcloser := hrow group (by rw [hgroups]; rfl)
        rw [← heq, hcloses] at hcloser
        cases hcloser
      simp [hne]
  rw [hterminal] at h
  obtain ⟨ts, n₁, hterm, h⟩ := run_bind h
  cases h
  obtain ⟨t, rfl, hleaf⟩ := exists_leaf_of_kept hterm hkept
  exact ⟨t, hleaf, rfl⟩

/-- An opener starts a group that waits for its closer. -/
theorem addItem_opener {closer : String} (hpair : grammar.closer? item.symbol.lexeme = some closer)
    (h : (addItem grammar row previous item).run n = (row', n')) (hkept : n'.mismatches = n.mismatches) :
    ∃ info t, IsGroup item info ∧ IsLeaf item t ∧ row' = { row with groups := ⟨⟨info, [t]⟩, closer⟩ :: row.groups } := by
  obtain ⟨hopens, _⟩ := Grammar.opens_and_closes_of_closer? hpair
  rw [addItem, if_pos hopens] at h
  replace h := run_make h
  obtain ⟨r, n₁, henter, h⟩ := run_bind h
  have he := entered_of_run henter
  cases r with
  | none =>
    cases h
    obtain ⟨info, hinfo, _⟩ := he.exists_of_kept hkept
    cases hinfo
  | some info =>
    obtain ⟨ts, n₂, hterm, h⟩ := run_bind h
    cases h
    obtain ⟨hinfo, t, rfl, hleaf⟩ := he.begun_of_kept hterm hkept
    refine ⟨info, t, ?_, hleaf, by rw [hpair]; rfl⟩
    rw [hinfo]
    exact ⟨rfl, rfl, rfl, rfl⟩

/-- The closer of the innermost group ends it, and the finished group goes into the node around it. -/
theorem addItem_closer {group : OpenGroup} {outer : List OpenGroup} (hopens : grammar.opens item.symbol.lexeme = false)
    (hgroups : row.groups = group :: outer) (hcloser : item.symbol.lexeme = group.closer)
    (h : (addItem grammar row previous item).run n = (row', n')) (hkept : n'.mismatches = n.mismatches) :
    ∃ t, IsLeaf item t ∧ row' = addTrees { row with groups := outer } [(group.node.add [t]).close] := by
  rw [addItem, hopens, hgroups] at h
  simp only [Bool.false_eq_true, if_false, hcloser, if_true] at h
  obtain ⟨ts, n₁, hterm, h⟩ := run_bind h
  cases h
  obtain ⟨t, rfl, hleaf⟩ := exists_leaf_of_kept hterm hkept
  exact ⟨t, hleaf, rfl⟩

/-- Well nested symbols put the trees that stand for them into the node that is open, whatever follows them. -/
theorem addItems_grouped (hroles : grammar.BracketsApart) {lexemes : List String}
    (hnest : WellNested grammar lexemes) {front rest : List Admitted} (hlexemes : front.map (·.symbol.lexeme) = lexemes)
    (hrow : AwaitsBracket grammar row) (h : (addItems grammar row previous (front ++ rest)).run n = ((row', block), n'))
    (hkept : n'.mismatches = n.mismatches) : ∃ ts previous' n₁, Grouped grammar front ts ∧ n₁.mismatches = n.mismatches ∧
      (addItems grammar (addTrees row ts) previous' rest).run n₁ = ((row', block), n') := by
  induction hnest generalizing front rest row previous n with
  | nil =>
    obtain rfl := List.map_eq_nil_iff.1 hlexemes
    exact ⟨[], previous, n, .nil, rfl, by rw [addTrees_nil]; exact h⟩
  | plain hopens hcloses _ ih =>
    obtain ⟨item, items, rfl, rfl, hitems⟩ := List.map_eq_cons_iff.1 hlexemes
    rw [List.cons_append, addItems_cons fun _ => opensBlock_of_not_opens hopens] at h
    obtain ⟨row₁, n₁, hitem, h⟩ := run_bind h
    obtain ⟨hfirst, hsecond⟩ := (addItem_of_run hitem).grows.kept (addItems_of_run h).grows hkept
    obtain ⟨t, hleaf, rfl⟩ := addItem_plain hopens hcloses hrow hitem hfirst
    obtain ⟨ts, previous', n₂, hgrouped, hn₂, hrun⟩ := ih hitems (hrow.addTrees [t]) h hsecond
    rw [addTrees_addTrees] at hrun
    exact ⟨t :: ts, previous', n₂, .plain hopens hcloses hleaf hgrouped, hn₂.trans hfirst, hrun⟩
  | pair hpair _ _ ihinner ihrest =>
    obtain ⟨opener, others, rfl, rfl, hothers⟩ := List.map_eq_cons_iff.1 hlexemes
    obtain ⟨inner, behind, rfl, hinner, hbehind⟩ := List.map_eq_append_iff.1 hothers
    obtain ⟨closer, items, rfl, rfl, hitems⟩ := List.map_eq_cons_iff.1 hbehind
    obtain ⟨_, hcloses⟩ := Grammar.opens_and_closes_of_closer? hpair
    have hopens : grammar.opens closer.symbol.lexeme = false := by
      rw [Bool.eq_false_iff]
      intro hopens
      rw [hroles _ hopens] at hcloses
      cases hcloses
    -- the opener starts a group, the symbols behind it go into the group, and the closer ends it
    rw [List.cons_append, List.append_assoc, List.cons_append, addItems_cons (by simp)] at h
    obtain ⟨row₁, n₁, hopener, h⟩ := run_bind h
    obtain ⟨hkept₁, hkept'⟩ := (addItem_of_run hopener).grows.kept (addItems_of_run h).grows hkept
    obtain ⟨info, first, hgroup, hfirst, rfl⟩ := addItem_opener hpair hopener hkept₁
    have hawaits : AwaitsBracket grammar { row with groups := ⟨⟨info, [first]⟩, closer.symbol.lexeme⟩ :: row.groups } := by
      intro group hfound
      obtain rfl := Option.some.inj hfound
      exact hcloses
    obtain ⟨us, previous₂, n₂, hus, hn₂, h⟩ := ihinner hinner hawaits h hkept'
    rw [addItems_cons fun _ => opensBlock_of_not_opens hopens] at h
    obtain ⟨row₃, n₃, hcloser, h⟩ := run_bind h
    obtain ⟨hkept₃, hkept''⟩ :=
      (addItem_of_run hcloser).grows.kept (addItems_of_run h).grows (hkept'.trans hn₂.symm)
    obtain ⟨last, hlast, rfl⟩ := addItem_closer hopens rfl rfl hcloser hkept₃
    obtain ⟨ts, previous₄, n₄, hts, hn₄, h⟩ := ihrest hitems (hrow.addTrees _) h hkept''
    rw [addTrees_addTrees] at h
    refine ⟨_, previous₄, n₄, .pair hpair hgroup hfirst hlast hus hts, ?_, h⟩
    rw [hn₄, hkept₃, hn₂, hkept₁]

end Assembly

end TokenForest

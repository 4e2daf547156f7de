import TokenForest.Proofs.Assembly.Rows

/-!
# Lanes

A statement goes through the gate after everything has been put below it. Where the gate changes its intent, the edges to its
children have been checked against the intent it had before, and nothing checks them again; all other edges of a finished lane
are permitted. Each symbol of a row becomes one terminal behind those that are there, or is noted.
-/

namespace TokenForest

namespace Assembly

variable {grammar : Grammar} {origin : String → Intent → Prop} {n n' : Notes}

/-! ## Edges of finished trees -/

/-- The edges that finished trees have: permitted ones, and those below statements whose intent was changed. -/
def Gated (grammar : Grammar) (origin : String → Intent → Prop) (n : Notes) (parent child : NodeInfo) : Prop :=
  Permitted grammar parent child ∨ Overtaken grammar origin n parent child

theorem Gated.mono (hn : n.Grows n') (p c : NodeInfo) (h : Gated grammar origin n p c) : Gated grammar origin n' p c := by
  rcases h with h | h
  · exact Or.inl h
  · exact Or.inr ⟨h.statement, hn.coerced.subset h.coerced, h.before⟩

theorem gated_ignoresConfidence : SyntaxTree.IgnoresConfidence (Gated grammar origin n) := by
  intro p c x y h
  rcases h with h | h
  · exact Or.inl h
  · exact Or.inr ⟨h.statement, h.coerced, h.before⟩

/-! ## Sound lanes -/

/-- The open nodes of a lane, innermost first. -/
def lanePath (lane : OpenLane) : List OpenNode := lane.blocks.flatMap (fun b => b.node :: b.path)

theorem lanePath_cons (b : OpenBlock) (rest : List OpenBlock) (roots : List SyntaxTree) :
    lanePath ⟨b :: rest, roots⟩ = (b.node :: b.path) ++ lanePath ⟨rest, roots⟩ := rfl

/-- The terminals of a lane, in pre-order. -/
def laneTerminals (lane : OpenLane) : List NodeInfo := SyntaxTree.terminals lane.roots ++ terminalsOn (lanePath lane)

/-- A lane all of whose edges, those of its open nodes among them, are of the given kind. -/
structure LaneLinked (R : NodeInfo → NodeInfo → Prop) (lane : OpenLane) : Prop where
  path : Sound R (lanePath lane)
  roots : ∀ r ∈ lane.roots, r.Linked R
  blocks : ∀ b ∈ lane.blocks, b.path ≠ []

namespace LaneLinked

variable {R S : NodeInfo → NodeInfo → Prop} {lane : OpenLane}

theorem empty : LaneLinked R ⟨[], []⟩ := ⟨Sound.nil, by simp, by simp⟩

theorem mono (h : LaneLinked R lane) (hRS : ∀ p c, R p c → S p c) : LaneLinked S lane :=
  ⟨h.path.mono hRS, fun r hr => (h.roots r hr).mono hRS, h.blocks⟩

/-- Finished trees go into the innermost block, or among the roots. -/
theorem addStatements (h : LaneLinked R lane) {ts : List SyntaxTree} (hlinked : ∀ t ∈ ts, t.Linked R)
    (hblock : ∀ t ∈ ts, ∀ x ∈ (lanePath lane).head?, R x.info t.info) : LaneLinked R (Assembly.addStatements lane ts) := by
  obtain ⟨blocks, roots⟩ := lane
  cases blocks with
  | nil =>
    refine ⟨Sound.nil, fun r hr => ?_, by simp [Assembly.addStatements]⟩
    rcases List.mem_append.1 hr with hr | hr
    · exact h.roots r hr
    · exact hlinked r hr
  | cons b rest =>
    refine ⟨?_, h.roots, fun c hc => ?_⟩
    · exact Sound.add (x := b.node) h.path fun t ht => ⟨hblock t ht b.node (by simp [lanePath]), hlinked t ht⟩
    · rcases List.mem_cons.1 hc with rfl | hc
      · exact h.blocks b (by simp)
      · exact h.blocks c (by simp [hc])

/-- The lane around its innermost block. -/
theorem outer {b : OpenBlock} {rest : List OpenBlock} {roots : List SyntaxTree} (h : LaneLinked R ⟨b :: rest, roots⟩) :
    LaneLinked R ⟨rest, roots⟩ :=
  ⟨Sound.append_right (a := b.node :: b.path) h.path, h.roots, fun c hc => h.blocks c (by simp [hc])⟩

/-- The tree of the innermost block when it is closed: its root is the statement that the block was opened in, and stands below
the next block. -/
theorem exists_closeBlock {b : OpenBlock} {rest : List OpenBlock} {roots : List SyntaxTree}
    (h : LaneLinked R ⟨b :: rest, roots⟩) : ∃ y, y ∈ (b.node :: b.path).getLast? ∧ (closeBlock b).info = y.info ∧
      (closeBlock b).Linked R ∧ ∀ x ∈ (lanePath ⟨rest, roots⟩).head?, R x.info y.info := by
  have hpath : Sound R ((b.node :: b.path) ++ lanePath ⟨rest, roots⟩) := h.path
  obtain ⟨y, hy⟩ : ∃ y, y ∈ (b.node :: b.path).getLast? := ⟨_, List.getLast?_eq_some_getLast (by simp)⟩
  obtain ⟨t, ht, hlinked, hinfo, _⟩ := hpath.append_left.closePath hy
  have hclosed : closeBlock b = t := Option.some.inj ht
  rw [hclosed]
  exact ⟨y, hy, hinfo, hlinked, fun x hx => hpath.boundary y hy x hx⟩

/-- Closing the innermost block puts its statement into the next one, or among the roots. -/
theorem closeBlock {b : OpenBlock} {rest : List OpenBlock} {roots : List SyntaxTree}
    (h : LaneLinked R ⟨b :: rest, roots⟩) :
    LaneLinked R (Assembly.addStatements ⟨rest, roots⟩ [Assembly.closeBlock b]) := by
  obtain ⟨y, _, hinfo, hlinked, hbelow⟩ := h.exists_closeBlock
  refine h.outer.addStatements ?_ ?_
  · intro u hu
    rw [List.mem_singleton.1 hu]
    exact hlinked
  · intro u hu x hx
    rw [List.mem_singleton.1 hu, hinfo]
    exact hbelow x hx

/-- A statement stays open around a block. -/
theorem openBlock (h : LaneLinked R lane) {node y : OpenNode} {path : List OpenNode} (hpath : Sound R (node :: path))
    (hy : y ∈ path.getLast?) (hblock : ∀ x ∈ (lanePath lane).head?, R x.info y.info) :
    LaneLinked R { lane with blocks := ⟨node, path⟩ :: lane.blocks } := by
  have hy' : (node :: path).getLast? = some y := by
    rw [List.getLast?_cons, Option.mem_def.1 hy]
    rfl
  refine ⟨hpath.append h.path fun inner hinner x hx => ?_, h.roots, fun b hb => ?_⟩
  · rw [Option.mem_def, hy', Option.some.injEq] at hinner
    exact hinner ▸ hblock x hx
  · rcases List.mem_cons.1 hb with rfl | hb
    · rintro rfl
      simp at hy
    · exact h.blocks b hb

end LaneLinked

/-- A tree that may be a root, all of whose edges went through the gate. -/
def Rooted (grammar : Grammar) (origin : String → Intent → Prop) (n : Notes) (t : SyntaxTree) : Prop :=
  grammar.permits none t.info.intent = true ∧ t.Linked (Gated grammar origin n)

/-- A lane all of whose edges went through the gate. -/
structure LaneSound (grammar : Grammar) (origin : String → Intent → Prop) (n : Notes) (lane : OpenLane) : Prop where
  path : Sound (Gated grammar origin n) (lanePath lane)
  roots : ∀ r ∈ lane.roots, Rooted grammar origin n r
  outermost : ∀ x ∈ (lanePath lane).getLast?, grammar.permits none x.info.intent = true
  blocks : ∀ b ∈ lane.blocks, b.path ≠ []

/-- What some symbols do to a lane. -/
structure LaneStep (grammar : Grammar) (origin : String → Intent → Prop) (lane : OpenLane) (n : Notes) (items : List Admitted)
    (lane' : OpenLane) (n' : Notes) : Prop where
  grows : n.Grows n'
  sound : LaneSound grammar origin n' lane'
  terminals : ∃ new, laneTerminals lane' = laneTerminals lane ++ new ∧ Placed n' items new

namespace LaneSound

variable {lane : OpenLane}

theorem linked (h : LaneSound grammar origin n lane) : LaneLinked (Gated grammar origin n) lane :=
  ⟨h.path, fun r hr => (h.roots r hr).2, h.blocks⟩

theorem empty : LaneSound grammar origin n ⟨[], []⟩ := ⟨Sound.nil, by simp, by simp [lanePath], by simp⟩

theorem mono (h : LaneSound grammar origin n lane) (hn : n.Grows n') : LaneSound grammar origin n' lane := by
  refine ⟨h.path.mono (Gated.mono hn), fun r hr => ?_, h.outermost, h.blocks⟩
  exact ⟨(h.roots r hr).1, (h.roots r hr).2.mono (Gated.mono hn)⟩

/-- Finished trees go into the innermost block, or among the roots. -/
theorem addStatements (h : LaneSound grammar origin n lane) {ts : List SyntaxTree}
    (hlinked : ∀ t ∈ ts, t.Linked (Gated grammar origin n))
    (hblock : ∀ t ∈ ts, ∀ x ∈ (lanePath lane).head?, Gated grammar origin n x.info t.info)
    (hroot : ∀ t ∈ ts, lanePath lane = [] → grammar.permits none t.info.intent = true) :
    LaneSound grammar origin n (Assembly.addStatements lane ts) := by
  have hadded := h.linked.addStatements hlinked hblock
  obtain ⟨blocks, roots⟩ := lane
  cases blocks with
  | nil =>
    refine ⟨hadded.path, fun r hr => ?_, by simp [lanePath, Assembly.addStatements], hadded.blocks⟩
    refine ⟨?_, hadded.roots r hr⟩
    rcases List.mem_append.1 hr with hr | hr
    · exact (h.roots r hr).1
    · exact hroot r hr rfl
  | cons b rest =>
    refine ⟨hadded.path, h.roots, fun x hx => h.outermost x ?_, hadded.blocks⟩
    cases hp : b.path with
    | nil => exact absurd hp (h.blocks b (by simp))
    | cons y path => simpa [lanePath, Assembly.addStatements, hp, List.getLast?_cons_cons] using hx

/-- The lane around its innermost block. -/
theorem outer {b : OpenBlock} {rest : List OpenBlock} {roots : List SyntaxTree}
    (h : LaneSound grammar origin n ⟨b :: rest, roots⟩) : LaneSound grammar origin n ⟨rest, roots⟩ := by
  refine ⟨h.linked.outer.path, h.roots, fun x hx => h.outermost x ?_, h.linked.outer.blocks⟩
  rw [lanePath_cons, List.getLast?_append, Option.mem_def.1 hx, Option.some_or]
  rfl

/-- Closing the innermost block puts its statement into the next one, or among the roots. -/
theorem closeBlock {b : OpenBlock} {rest : List OpenBlock} {roots : List SyntaxTree}
    (h : LaneSound grammar origin n ⟨b :: rest, roots⟩) :
    LaneSound grammar origin n (Assembly.addStatements ⟨rest, roots⟩ [Assembly.closeBlock b]) := by
  obtain ⟨y, hy, hinfo, hlinked, hbelow⟩ := h.linked.exists_closeBlock
  refine h.outer.addStatements ?_ ?_ ?_
  · intro u hu
    rw [List.mem_singleton.1 hu]
    exact hlinked
  · intro u hu x hx
    rw [List.mem_singleton.1 hu, hinfo]
    exact hbelow x hx
  · intro u hu hnil
    rw [List.mem_singleton.1 hu, hinfo]
    refine h.outermost y ?_
    rw [lanePath_cons, hnil, List.append_nil]
    exact hy

/-- A statement stays open around a block. -/
theorem openBlock (h : LaneSound grammar origin n lane) {node y : OpenNode} {path : List OpenNode}
    (hpath : Sound (Gated grammar origin n) (node :: path)) (hy : y ∈ path.getLast?)
    (hblock : ∀ x ∈ (lanePath lane).head?, Gated grammar origin n x.info y.info)
    (hroot : lanePath lane = [] → grammar.permits none y.info.intent = true) :
    LaneSound grammar origin n { lane with blocks := ⟨node, path⟩ :: lane.blocks } := by
  have hopen := h.linked.openBlock hpath hy hblock
  refine ⟨hopen.path, h.roots, fun x hx => ?_, hopen.blocks⟩
  have hy' : (node :: path).getLast? = some y := by
    rw [List.getLast?_cons, Option.mem_def.1 hy]
    rfl
  change x ∈ ((node :: path) ++ lanePath lane).getLast? at hx
  rw [List.getLast?_append, hy', Option.mem_def] at hx
  cases hlast : (lanePath lane).getLast? with
  | none =>
    rw [hlast, Option.none_or, Option.some.injEq] at hx
    exact hx ▸ hroot (List.getLast?_eq_none_iff.1 hlast)
  | some z =>
    rw [hlast, Option.some_or, Option.some.injEq] at hx
    exact h.outermost x (hx ▸ hlast)

end LaneSound

theorem laneTerminals_addStatements (lane : OpenLane) (ts : List SyntaxTree) :
    laneTerminals (addStatements lane ts) = laneTerminals lane ++ SyntaxTree.terminals ts := by
  obtain ⟨blocks, roots⟩ := lane
  cases blocks with
  | nil => simp [laneTerminals, addStatements, lanePath, terminalsOn]
  | cons b rest =>
    have h := terminalsOn_add b.node ts (b.path ++ lanePath ⟨rest, roots⟩)
    rw [laneTerminals, laneTerminals, List.append_assoc, addStatements]
    exact congrArg (SyntaxTree.terminals roots ++ ·) h

theorem laneTerminals_cons (b : OpenBlock) (rest : List OpenBlock) (roots : List SyntaxTree) :
    laneTerminals ⟨b :: rest, roots⟩ = laneTerminals ⟨rest, roots⟩ ++ terminalsOn (b.node :: b.path) := by
  rw [laneTerminals, laneTerminals, List.append_assoc, ← terminalsOn_append]
  rfl

/-- Closing the innermost block keeps the terminals and their order. -/
theorem laneTerminals_closeBlock {b : OpenBlock} {rest : List OpenBlock} {roots : List SyntaxTree}
    (h : LaneSound grammar origin n ⟨b :: rest, roots⟩) :
    laneTerminals (addStatements ⟨rest, roots⟩ [closeBlock b]) = laneTerminals ⟨b :: rest, roots⟩ := by
  have hpath : Sound (Gated grammar origin n) ((b.node :: b.path) ++ lanePath ⟨rest, roots⟩) := h.path
  rw [laneTerminals_addStatements, laneTerminals_cons, closeBlock, terminals_plug hpath.append_left.constructs]

namespace LaneStep

variable {lane lane' lane'' : OpenLane} {items items' : List Admitted}

theorem refl (h : LaneSound grammar origin n lane) (hn : n.Grows n') : LaneStep grammar origin lane n [] lane n' :=
  ⟨hn, h.mono hn, [], by simp, .nil⟩

theorem trans {n₁ n₂ : Notes} (h : LaneStep grammar origin lane n items lane' n₁)
    (h' : LaneStep grammar origin lane' n₁ items' lane'' n₂) :
    LaneStep grammar origin lane n (items ++ items') lane'' n₂ := by
  obtain ⟨new, hnew, hplaced⟩ := h.terminals
  obtain ⟨new', hnew', hplaced'⟩ := h'.terminals
  refine ⟨h.grows.trans h'.grows, h'.sound, new ++ new', ?_, ?_⟩
  · rw [hnew', hnew, List.append_assoc]
  · exact (hplaced.mono h'.grows).append hplaced'

end LaneStep

end Assembly

end TokenForest

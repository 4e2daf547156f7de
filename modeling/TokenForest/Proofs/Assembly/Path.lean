import Mathlib.Data.List.Chain
import TokenForest.Assembly
import TokenForest.Proofs.SyntaxTree.Preorder

/-!
# Open paths

A tree under construction is a path of open nodes, the innermost first. A path is sound when all edges that its finished tree
will have are of one kind; adding finished trees to the innermost node, opening a node below it and closing it keep a path
sound. The terminals of a path are those of its finished tree, in order, so closing a node does not change them.
-/

namespace TokenForest

namespace Assembly

variable {R S : NodeInfo → NodeInfo → Prop} {x y : OpenNode} {path : List OpenNode}

/-- All edges that the finished tree of a path will have are of the given kind, and the open nodes are constructs. -/
structure Sound (R : NodeInfo → NodeInfo → Prop) (path : List OpenNode) : Prop where
  children : ∀ n ∈ path, ∀ t ∈ n.children, R n.info t.info ∧ t.Linked R
  chain : path.IsChain (fun inner outer => R outer.info inner.info)
  constructs : ∀ n ∈ path, n.info.kind = .nonterminal

/-- The terminals below a path, in pre-order: those of outer nodes first. -/
def terminalsOn : List OpenNode → List NodeInfo
  | [] => []
  | n :: path => terminalsOn path ++ SyntaxTree.terminals n.children

namespace Sound

theorem nil : Sound R [] := ⟨by simp, List.IsChain.nil, by simp⟩

theorem mono (h : Sound R path) (hRS : ∀ p c, R p c → S p c) : Sound S path := by
  refine ⟨fun n hn t ht => ?_, h.chain.imp (fun _ _ => hRS _ _), h.constructs⟩
  exact ⟨hRS _ _ (h.children n hn t ht).1, (h.children n hn t ht).2.mono hRS⟩

theorem tail (h : Sound R (x :: path)) : Sound R path :=
  ⟨fun n hn => h.children n (by simp [hn]), h.chain.tail, fun n hn => h.constructs n (by simp [hn])⟩

/-- A new innermost node may have any finished children that it may stand over. -/
theorem push (h : Sound R path) (hx : ∀ t ∈ x.children, R x.info t.info ∧ t.Linked R)
    (hhead : ∀ y ∈ path.head?, R y.info x.info) (hkind : x.info.kind = .nonterminal) : Sound R (x :: path) := by
  refine ⟨fun n hn => ?_, ?_, fun n hn => ?_⟩
  · rcases List.mem_cons.1 hn with rfl | hn
    · exact hx
    · exact h.children n hn
  · exact List.isChain_cons.2 ⟨hhead, h.chain⟩
  · rcases List.mem_cons.1 hn with rfl | hn
    · exact hkind
    · exact h.constructs n hn

theorem head_related (h : Sound R (x :: path)) : ∀ y ∈ path.head?, R y.info x.info :=
  (List.isChain_cons.1 h.chain).1

/-- More finished children of the innermost node. -/
theorem add (h : Sound R (x :: path)) {ts : List SyntaxTree} (hts : ∀ t ∈ ts, R x.info t.info ∧ t.Linked R) :
    Sound R (x.add ts :: path) := by
  refine h.tail.push (fun t ht => ?_) h.head_related (h.constructs x (by simp))
  rcases List.mem_append.1 ht with ht | ht
  · exact h.children x (by simp) t ht
  · exact hts t ht

/-- The finished tree of the innermost node. -/
theorem close (h : Sound R (x :: path)) : x.close.Linked R :=
  SyntaxTree.linked_node.2 (h.children x (by simp))

/-- Closing the innermost node puts its tree below the next one. -/
theorem pop (h : Sound R (x :: y :: path)) : Sound R (y.add [x.close] :: path) := by
  refine h.tail.add fun t ht => ?_
  rw [List.mem_singleton] at ht
  subst ht
  exact ⟨h.head_related y (by simp), h.close⟩

/-- Closing all nodes of a path makes a sound tree, whose root is the outermost node. -/
theorem plug (h : Sound R (x :: path)) : (OpenNode.plug path x.close).Linked R ∧
    some (OpenNode.plug path x.close).info = (x :: path).getLast?.map (·.info) := by
  induction path generalizing x with
  | nil => exact ⟨h.close, rfl⟩
  | cons y path ih =>
    obtain ⟨h1, h2⟩ := ih h.pop
    refine ⟨h1, h2.trans ?_⟩
    cases path with
    | nil => rfl
    | cons z path => simp [List.getLast?_cons_cons]

theorem append_left {a b : List OpenNode} (h : Sound R (a ++ b)) : Sound R a :=
  ⟨fun n hn => h.children n (by simp [hn]), h.chain.left_of_append, fun n hn => h.constructs n (by simp [hn])⟩

theorem append_right {a b : List OpenNode} (h : Sound R (a ++ b)) : Sound R b :=
  ⟨fun n hn => h.children n (by simp [hn]), h.chain.right_of_append, fun n hn => h.constructs n (by simp [hn])⟩

/-- Where one path ends inside another, the two nodes that meet are related. -/
theorem boundary {a b : List OpenNode} (h : Sound R (a ++ b)) :
    ∀ inner ∈ a.getLast?, ∀ outer ∈ b.head?, R outer.info inner.info :=
  (List.isChain_append.1 h.chain).2.2

/-- Two sound paths one inside the other. -/
theorem append {a b : List OpenNode} (ha : Sound R a) (hb : Sound R b)
    (h : ∀ inner ∈ a.getLast?, ∀ outer ∈ b.head?, R outer.info inner.info) : Sound R (a ++ b) := by
  refine ⟨fun n hn => ?_, ha.chain.append hb.chain h, fun n hn => ?_⟩
  · rcases List.mem_append.1 hn with hn | hn
    · exact ha.children n hn
    · exact hb.children n hn
  · rcases List.mem_append.1 hn with hn | hn
    · exact ha.constructs n hn
    · exact hb.constructs n hn

/-- The outermost node of a path may be changed to one that is related to all that the old one was related to. -/
theorem relabel {a : List OpenNode} {info : NodeInfo} (h : Sound R (a ++ [x])) (hinfo : ∀ c, R x.info c → S info c)
    (hRS : ∀ p c, R p c → S p c) (hkind : info.kind = .nonterminal) : Sound S (a ++ [{ x with info }]) := by
  have hlast : Sound S [{ x with info }] := by
    refine ⟨fun n hn t ht => ?_, List.isChain_singleton _, fun n hn => ?_⟩
    · rw [List.mem_singleton] at hn
      subst hn
      obtain ⟨h1, h2⟩ := h.children x (by simp) t ht
      exact ⟨hinfo _ h1, h2.mono hRS⟩
    · rw [List.mem_singleton] at hn
      subst hn
      exact hkind
  refine (h.append_left.mono hRS).append hlast fun inner hinner outer houter => ?_
  rw [List.head?_cons, Option.mem_some_iff] at houter
  subst houter
  exact hinfo _ (h.boundary inner hinner x (by simp))

end Sound

/-! ## Terminals -/

theorem terminalsOn_append (a b : List OpenNode) : terminalsOn (a ++ b) = terminalsOn b ++ terminalsOn a := by
  induction a with
  | nil => simp [terminalsOn]
  | cons n a ih => rw [List.cons_append, terminalsOn, terminalsOn, ih, List.append_assoc]

theorem terminalsOn_add (x : OpenNode) (ts : List SyntaxTree) (path : List OpenNode) :
    terminalsOn (x.add ts :: path) = terminalsOn (x :: path) ++ SyntaxTree.terminals ts := by
  simp [terminalsOn, OpenNode.add]

theorem terminals_close (hx : x.info.kind = .nonterminal) :
    SyntaxTree.terminals [x.close] = SyntaxTree.terminals x.children :=
  SyntaxTree.terminals_inner (by rw [hx]; simp) x.children

/-- Closing the innermost node keeps the terminals and their order. -/
theorem terminalsOn_pop (hx : x.info.kind = .nonterminal) :
    terminalsOn (y.add [x.close] :: path) = terminalsOn (x :: y :: path) := by
  rw [terminalsOn_add, terminals_close hx]
  rfl

/-- The finished tree of a path has the terminals of the path. -/
theorem terminals_plug (h : ∀ n ∈ x :: path, n.info.kind = .nonterminal) :
    SyntaxTree.terminals [OpenNode.plug path x.close] = terminalsOn (x :: path) := by
  induction path generalizing x with
  | nil => simp [OpenNode.plug, terminalsOn, terminals_close (h x (by simp))]
  | cons y path ih =>
    rw [← terminalsOn_pop (h x (by simp))]
    refine ih fun n hn => ?_
    rcases List.mem_cons.1 hn with rfl | hn
    · exact h y (by simp)
    · exact h n (by simp [hn])

/-- What the outermost node of a path says does not matter for the terminals. -/
theorem terminalsOn_relabel (a : List OpenNode) (x : OpenNode) (info : NodeInfo) :
    terminalsOn (a ++ [{ x with info }]) = terminalsOn (a ++ [x]) :=
  (terminalsOn_append _ _).trans (terminalsOn_append _ [x]).symm

/-- The finished tree of a sound path: its root is the outermost node, and it has the terminals of the path. -/
theorem Sound.closePath (h : Sound R path) (hy : y ∈ path.getLast?) :
    ∃ t, Assembly.closePath path = some t ∧ t.Linked R ∧ t.info = y.info ∧ SyntaxTree.terminals [t] = terminalsOn path := by
  cases path with
  | nil => simp at hy
  | cons x path =>
    obtain ⟨hlinked, hinfo⟩ := h.plug
    rw [Option.mem_def.1 hy] at hinfo
    exact ⟨_, rfl, hlinked, Option.some.inj hinfo, terminals_plug h.constructs⟩

end Assembly

end TokenForest

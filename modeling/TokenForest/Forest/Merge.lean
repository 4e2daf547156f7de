import TokenForest.Config
import TokenForest.Forest.Member

/-!
# Merging equivalent nodes

Nodes are merged level by level from the leaves up. Nodes of a level with the same signature, which names the classes of
their children, are sorted by confidence; a class starts at the lowest one left and takes every node within the tolerance
of it. A class is represented by its first node in source order, which takes the lowest confidence of the class.
-/

namespace TokenForest

/-- What the smallest excess over the tolerance has to exceed to count. -/
def toleranceSlack : Binary64 := 1e-9

/-- A class of merged nodes: the node that represents it, its members in ascending order of confidence, and its
confidence. -/
structure MergeClass where
  representative : Nat
  members : List Nat
  confidence : Binary64
  deriving DecidableEq, Repr

/-- A class of at least two nodes, by name. -/
structure EquivalenceClass where
  representative : String
  members : List String
  confidence : Binary64
  deriving DecidableEq, Repr

namespace EquivalenceClass

/-- The class with these names; the representative has to be one of the members. -/
def make? (representative : String) (members : List String) (confidence : Binary64) : Except Fault EquivalenceClass :=
  if members.contains representative then .ok ⟨representative, members, confidence⟩ else .error .foreignRepresentative

end EquivalenceClass

namespace Forest

/-! ## Classes by tolerance -/

/-- Splits members after the ones already in a class: a member that lies within the tolerance of the lowest confidence of
the class joins it, any other starts a new one. -/
def splitFrom (tolerance : Binary64) (lowest : Binary64) (joined : List Member) : List Member → List (List Member)
  | [] => [joined]
  | m :: rest =>
    if m.confidence - lowest ≤ tolerance + toleranceSlack then splitFrom tolerance lowest (joined ++ [m]) rest
    else joined :: splitFrom tolerance m.confidence [m] rest

/-- The classes of some members, ascending. -/
def clusters (tolerance : Binary64) (members : List Member) : List (List Member) :=
  match Member.arrange members with
  | [] => []
  | m :: rest => splitFrom tolerance m.confidence [m] rest

/-- The class that some members make. -/
def classOf : List Member → Option MergeClass
  | [] => none
  | m :: rest => some {
      representative := (Member.first m rest).node
      members := (m :: rest).map (·.node)
      confidence := (SyntaxTree.least m.confidence (rest.map (·.confidence))).roundSix }

/-! ## Levels -/

/-- The class of a node. -/
def class? (classes : List MergeClass) (i : Nat) : Option MergeClass := classes.find? (·.members.contains i)

/-- The node that represents a node; itself when it has no class. -/
def representative (classes : List MergeClass) (i : Nat) : Nat :=
  ((class? classes i).map (·.representative)).getD i

/-- The confidence of a node once the classes below it are known: an inner node takes the least confidence of the classes
of its children. -/
def mergedConfidence (f : Forest) (classes : List MergeClass) (i : Nat) : Binary64 :=
  if (f.node i).info.kind = .terminal then f.confidence i
  else SyntaxTree.aggregate (f.confidence i)
    ((f.children i).map (fun c => ((class? classes c).map (·.confidence)).getD (f.confidence c)))

/-- What nodes of a level have to agree on to be merged. -/
structure Signature where
  kind : NodeKind
  label : String
  intent : Intent
  lexical : Option (String × String)
  children : List Nat
  deriving DecidableEq

/-- The signature of a node, its children named by their representatives. -/
def signature (f : Forest) (classes : List MergeClass) (i : Nat) : Signature :=
  let info := (f.node i).info
  ⟨info.kind, info.label, info.intent, info.lexical, (f.children i).map (representative classes)⟩

/-- The member that a node is on its level. -/
def member (f : Forest) (classes : List MergeClass) (i : Nat) : Member :=
  ⟨i, f.mergedConfidence classes i, f.rank i⟩

/-- The classes of a level, signature by signature. -/
def levelClasses (f : Forest) (tolerance : Binary64) (classes : List MergeClass) (level : List Nat) : List MergeClass :=
  let signed := level.map (fun i => (f.signature classes i, i))
  ((signed.map (·.1)).eraseDups).flatMap fun s =>
    let members := (signed.filter (fun e => decide (e.1 = s))).map (fun e => f.member classes e.2)
    (clusters tolerance members).filterMap classOf

/-- The nodes of the walk by height, from the leaves up. -/
def levels (f : Forest) : List (List Nat) :=
  let walked := f.walk
  (List.range (heightOver (walked.map f.height))).map (fun h => walked.filter (fun i => decide (f.height i = h)))

/-- The classes of all nodes below the roots. -/
def classes (f : Forest) (tolerance : Binary64) : List MergeClass :=
  f.levels.foldl (fun done level => done ++ f.levelClasses tolerance done level) []

/-! ## The merged forest -/

/-- A node below the roots after merging: its children are representatives, and a representative has the confidence of its
class. -/
def mergedNode (f : Forest) (classes : List MergeClass) (i : Nat) (n : Node) : Node :=
  match class? classes i with
  | none => n
  | some c =>
    let confidence := if c.representative = i then c.confidence else f.mergedConfidence classes i
    { n with info := { n.info with confidence }, children := n.children.map (representative classes) }

/-- The forest after merging the classes. -/
def mergeClasses (f : Forest) (classes : List MergeClass) : Forest where
  nodes := f.nodes.mapIdx (f.mergedNode classes)
  roots := f.roots.map (representative classes)

/-- A class by name. -/
def nameClass (f : Forest) (c : MergeClass) : EquivalenceClass where
  representative := (f.node c.representative).info.id
  members := (c.members.map (fun i => (f.node i).info.id)).mergeSort (fun a b => decide (a ≤ b))
  confidence := c.confidence

/-- The classes of at least two nodes in order of the names of their representatives. -/
def reported (f : Forest) (classes : List MergeClass) : List EquivalenceClass :=
  ((classes.filter (fun c => decide (1 < c.members.length))).map f.nameClass).mergeSort
    (fun a b => decide (a.representative ≤ b.representative))

/-- A forest after merging, the classes of at least two nodes, and the numbers of nodes before and after. -/
structure Merged where
  forest : Forest
  classes : List EquivalenceClass
  before : Nat
  after : Nat
  deriving DecidableEq

/-- The number of nodes that merging saved. -/
def Merged.saved (m : Merged) : Int := (m.before : Int) - (m.after : Int)

/-- The reported classes, when each of them passes its check. -/
def checkClasses (classes : List EquivalenceClass) : Except Fault (List EquivalenceClass) :=
  classes.mapM (fun c => EquivalenceClass.make? c.representative c.members c.confidence)

/-- Merges the equivalent nodes of a forest; the tolerance has to be finite and not negative. -/
def merge (f : Forest) (tolerance : Binary64) : Except Fault Merged := do
  if !Config.isTolerance tolerance then .error (.config .mergeTolerance)
  let classes := f.classes tolerance
  let merged := f.mergeClasses classes
  return ⟨merged, ← checkClasses (f.reported classes), f.count, merged.count⟩

end Forest

end TokenForest

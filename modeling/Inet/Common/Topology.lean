import Inet.Common.Basic
import Inet.Library.Lists
import Inet.Library.WeightedPaths

/-!
# Shortest paths in a topology

`calculateWeightedSingleShortestPathsTo` computes the distance of every node to a target, and the
first link of a shortest path. It keeps the nodes that are still to be expanded in a list, ordered
by their distance. Weights are exact numbers, with `⊤` for `INFINITY`.
-/

namespace Inet

structure Link (n : ℕ) where
  srcNode : Fin n
  destNode : Fin n
  weight : WithTop ℚ
  enabled : Bool := true

/-- A graph with `n` nodes. -/
structure Topology (n : ℕ) where
  weight : Fin n → WithTop ℚ
  enabled : Fin n → Bool
  inLinks : Fin n → List (Link n)
  /-- A link is among the links into the node that it leads to. -/
  destNode_eq : ∀ v, ∀ link ∈ inLinks v, link.destNode = v

namespace Topology

variable {n : ℕ}

/-- What the algorithm writes to the nodes, and its queue. -/
structure Search (n : ℕ) where
  dist : Fin n → WithTop ℚ
  outPath : Fin n → Option (Link n)
  q : List (Fin n)

/-- The body of the loop over the links into `dest`. -/
def relax (top : Topology n) (target dest : Fin n) (s : Search n) (link : Link n) :
    Result (Search n) :=
  if !link.enabled then .ok s
  else if !top.enabled link.srcNode then .ok s
  else do
    assert (0 < link.weight) "linkWeight > 0.0"
    let newdist := s.dist dest + link.weight
    let newdist := if dest ≠ target then newdist + top.weight dest else newdist
    if newdist ≠ ⊤ ∧ newdist < s.dist link.srcNode then
      -- the source is in the queue if it has been reached
      let q :=
        if s.dist link.srcNode ≠ ⊤ then s.q.filter fun v => v ≠ link.srcNode else s.q
      let dist := Function.update s.dist link.srcNode newdist
      .ok {
        dist
        outPath := Function.update s.outPath link.srcNode (some link)
        q := q.insertUpper (fun v w => dist v < dist w) link.srcNode }
    else .ok s

/-- A round of the loop over the queue, for its first node. -/
def expand (top : Topology n) (target dest : Fin n) (s : Search n) : Result (Search n) := do
  assert (0 ≤ top.weight dest) "dest->getWeight() >= 0.0"
  (top.inLinks dest).foldlM (relax top target dest) s

/-- The loop over the queue, with a bound on its rounds. -/
def search (top : Topology n) (target : Fin n) : ℕ → Search n → Result (Search n)
  | 0, s => if s.q.isEmpty then .ok s else .error .outOfFuel
  | fuel + 1, s =>
    match s.q with
    | [] => .ok s
    | dest :: q => do
        let s ← expand top target dest { s with q }
        search top target fuel s

/-- Without a target it throws. The loop takes at most one round for each node. -/
def calculateWeightedSingleShortestPathsTo (top : Topology n) : Option (Fin n) → Result (Search n)
  | none => .error (.cRuntimeError "..ShortestPathTo(): target node is nullptr")
  | some target =>
    search top target n {
      dist := Function.update (fun _ => ⊤) target 0
      outPath := fun _ => none
      q := [target] }

/-- The nodes and the enabled links from enabled nodes. -/
def network (top : Topology n) : Network (Fin n) (Link n) (WithTop ℚ) where
  src := Link.srcNode
  dst := Link.destNode
  usable link := link ∈ top.inLinks link.destNode ∧ link.enabled = true ∧
    top.enabled link.srcNode = true
  length := Link.weight
  transit := top.weight

/-- Positive weights of links and weights of nodes that are not negative. -/
structure Weighted (top : Topology n) : Prop where
  link : ∀ v, ∀ link ∈ top.inLinks v, 0 < link.weight
  node : ∀ v, 0 ≤ top.weight v

/-- Distances are the least costs of the paths, and `outPath` leads along a path of this cost. -/
structure ShortestPaths (top : Topology n) (target : Fin n)
    (paths : Fin n → List (Link n) → Prop) (s : Search n) : Prop where
  le : ∀ v links, paths v links → s.dist v ≤ top.network.cost links
  unreached : ∀ v, s.dist v = ⊤ → s.outPath v = none
  reached : ∀ v, s.dist v ≠ ⊤ → ∃ links, top.network.Follows target s.outPath v links ∧
    paths v links ∧ top.network.cost links = s.dist v

end Topology

end Inet

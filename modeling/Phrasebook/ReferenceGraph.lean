import Std.Data.ExtTreeSet
import Phrasebook.Registry
import Phrasebook.Template.Json

/-! The graph of references between units. Its nodes are the declared units and the units referred
to; an edge leads from a unit referred to, declared or not, to the unit that refers to it. The units are
sorted by counting down, for each, those before it that are not placed yet. A graph without cycles has a
least order in which each unit follows those that it refers to. -/

namespace Phrasebook

open Std

/-- For each node, the units that refer to it. -/
structure ReferenceGraph where
  users : ExtTreeMap UnitKey (ExtTreeSet UnitKey)

namespace ReferenceGraph

def ofRegistry (registry : Registry) : ReferenceGraph where
  users := registry.units.foldl addUnit ∅
where
  addUnit (graph : ExtTreeMap UnitKey (ExtTreeSet UnitKey)) (definition : Definition) :
      ExtTreeMap UnitKey (ExtTreeSet UnitKey) :=
    let targets := ExtTreeSet.ofList (definition.references.map (·.target))
    targets.toList.foldl (addEdge definition.key) (graph.insertIfNew definition.key ∅)
  addEdge (user : UnitKey) (graph : ExtTreeMap UnitKey (ExtTreeSet UnitKey)) (used : UnitKey) :
      ExtTreeMap UnitKey (ExtTreeSet UnitKey) :=
    graph.alter used fun users => some ((users.getD ∅).insert user)

def nodes (graph : ReferenceGraph) : List UnitKey := graph.users.keys

def edgeCount (graph : ReferenceGraph) : Nat := (graph.users.values.map (·.size)).foldr (· + ·) 0

/-- For each node, how many units it refers to. -/
def inDegrees (graph : ReferenceGraph) : ExtTreeMap UnitKey Nat :=
  graph.users.toList.foldl (fun degrees (_, users) => users.toList.foldl count degrees)
    (graph.users.map fun _ _ => 0)
where
  count (degrees : ExtTreeMap UnitKey Nat) (user : UnitKey) : ExtTreeMap UnitKey Nat :=
    degrees.alter user fun degree => some (degree.getD 0 + 1)

/-- Where sorting stands: how many units each node refers to that are not placed yet, the nodes that
can be placed next, and those placed. -/
structure Sorting where
  degrees : ExtTreeMap UnitKey Nat
  ready : ExtTreeSet UnitKey
  placed : Array UnitKey := #[]

namespace Sorting

/-- One of the units that the node refers to was placed. -/
def release (sorting : Sorting) (node : UnitKey) : Sorting :=
  match sorting.degrees[node]? with
  | none => sorting
  | some degree =>
    { sorting with
      degrees := sorting.degrees.insert node (degree - 1)
      ready := if degree - 1 = 0 then sorting.ready.insert node else sorting.ready }

/-- Places a node that is ready. -/
def place (graph : ReferenceGraph) (sorting : Sorting) (node : UnitKey) : Sorting :=
  let users := (graph.users[node]?.getD ∅).toList
  let released := users.foldl release { sorting with ready := sorting.ready.erase node }
  { released with placed := released.placed.push node }

/-- Places the first node that is ready until none is. Each round places a node, so that there are at
most as many rounds as nodes. -/
def run (graph : ReferenceGraph) (sorting : Sorting) : Nat → Sorting
  | 0 => sorting
  | rounds + 1 =>
    match sorting.ready.toList.head? with
    | none => sorting
    | some node => run graph (sorting.place graph node) rounds

end Sorting

/-- Before the first node is placed, those are ready that refer to none. -/
def startSorting (graph : ReferenceGraph) : Sorting where
  degrees := graph.inDegrees
  ready := ExtTreeSet.ofList ((graph.inDegrees.filter fun _ degree => degree == 0).keys)

/-- The nodes, each after those that it refers to, or else the nodes that no such order can place, in
the order of keys. -/
def sort (graph : ReferenceGraph) : Except (List UnitKey) (List UnitKey) :=
  let last := graph.startSorting.run graph graph.nodes.length
  if last.placed.size = graph.nodes.length then .ok last.placed.toList
  else .error (last.degrees.filter fun _ degree => 0 < degree).keys

/-- The facts about a graph that a report gives. -/
structure Summary where
  nodes : Nat
  edges : Nat
  order : Except (List UnitKey) (List UnitKey)

def summary (graph : ReferenceGraph) : Summary where
  nodes := graph.nodes.length
  edges := graph.edgeCount
  order := graph.sort

def Summary.order? (summary : Summary) : Option (List UnitKey) :=
  match summary.order with
  | .ok placed => some placed
  | .error _ => none

/-- The nodes on a cycle or behind one, if there are any. -/
def Summary.cycle? (summary : Summary) : Option (List UnitKey) :=
  match summary.order with
  | .ok _ => none
  | .error left => some left

def Summary.toJson (summary : Summary) : Json :=
  .object [
    ("summary", .object [("nodes", .number summary.nodes), ("edges", .number summary.edges)]),
    ("topo_order", .ofOption (.ofList UnitKey.toJson) summary.order?),
    ("cycle", .ofOption (.ofList UnitKey.toJson) summary.cycle?)]

end ReferenceGraph

end Phrasebook

import Lisplet.Value.Basic

/-!
The value a node denotes when nothing in it is evaluated. The groups that are being filled are
kept on a stack, so nesting is bounded by memory only.
-/

namespace Lisplet

namespace Node

mutual
/-- How many nodes a node consists of, a group counting twice. -/
def weight : Node → Nat
  | leaf .. => 1
  | group _ items _ => 2 + weights items

def weights : List Node → Nat
  | [] => 0
  | n :: ns => weight n + weights ns
end

/-- A group that waits for one of its items: the values before it in reverse, the nodes behind. -/
structure Filling where
  shape : Shape
  built : List Value
  pending : List Node

/-- How much is left to do in the groups on a stack. -/
def Filling.weights : List Filling → Nat
  | [] => 0
  | f :: rest => 1 + Node.weights f.pending + weights rest

/-- Fills a group with the values of the pending nodes, then the groups around it. -/
def fill (shape : Shape) (built : List Value) : List Node → List Filling → Value
  | [], [] => .ofItems shape built.reverse
  | [], outer :: rest =>
    fill outer.shape (.ofItems shape built.reverse :: outer.built) outer.pending rest
  | leaf a _ :: pending, stack => fill shape (.atom a :: built) pending stack
  | group inner items _ :: pending, stack => fill inner [] items (⟨shape, built, pending⟩ :: stack)
termination_by pending stack => weights pending + Filling.weights stack
decreasing_by
  all_goals simp only [weights, weight, Filling.weights]; omega

/-- The value a node stands for as data. An empty list is nil at any depth. -/
def toValue : Node → Value
  | leaf a _ => .atom a
  | group shape items _ => fill shape [] items []

end Node
end Lisplet

import Lisplet.Proofs.Value.Structural

/-!
Rows that are shown before they are filled. The value of a node can also be made in place: a group
inside a group is entered as a row that is still empty, and the rows that lack their items are
filled in the order of a stack, the latest first. While rows are filled, what an entry will come to
is promised by the row that it stands for and by the nodes that are still to be entered there; the
promises are kept, so that in the end every row reads as the value of its group.
-/

namespace Lisplet

namespace Node

/- The value that a node denotes, told by its structure. -/
mutual
def meaning : Node → Value
  | leaf a _ => .atom a
  | group .list [] _ => .nil
  | group shape items _ => .seq shape (meanings items)

def meanings : List Node → List Value
  | [] => []
  | n :: ns => n.meaning :: meanings ns
end

theorem meanings_eq_map (nodes : List Node) : meanings nodes = nodes.map meaning := by
  induction nodes with
  | nil => rfl
  | cons n ns ih => rw [meanings, ih, List.map_cons]

theorem meaning_group (shape : Shape) (items : List Node) (span : Span) :
    (group shape items span).meaning = .ofItems shape (items.map meaning) := by
  match shape, items with
  | .list, [] => rfl
  | .list, n :: ns | .vector, ns =>
    rw [meaning, meanings_eq_map] <;> simp [Value.ofItems, Value.ofList]

theorem toValue_eq_meaning (node : Node) : node.toValue = node.meaning := by
  induction node using Node.induction with
  | leaf a span => rw [toValue, meaning]
  | group shape items span ih =>
    rw [toValue_group, meaning_group, List.map_congr_left ih]

end Node

/-- What stands in a row: an atom, or a row of its own, told by its place. -/
inductive Entry where
  | atom (a : Atom)
  | row (place : Nat)

/-- The row of a list or vector. Entries may still be missing at its end. -/
structure Row where
  shape : Shape
  entries : List Entry

namespace Row

/-- The entry for a node, behind the rows that there are. A group has a new row, in which nothing
stands yet; an empty list is nil. -/
def enter (rows : List Row) : Node → Entry × List Row
  | .leaf a _ => (.atom a, rows)
  | .group .list [] _ => (.atom .nil, rows)
  | .group shape _ _ => (.row rows.length, rows ++ [⟨shape, []⟩])

/-- What is to be entered in the row of a new entry. -/
def missing (place : Nat) : Node → List (Nat × List Node)
  | .group _ (n :: ns) _ => [(place, n :: ns)]
  | _ => []

def append (rows : List Row) (place : Nat) (entry : Entry) : List Row :=
  rows.modify place fun row => { row with entries := row.entries ++ [entry] }

def weights : List (Nat × List Node) → Nat
  | [] => 0
  | (_, nodes) :: rest => 1 + Node.weights nodes + weights rest

theorem weights_append (xs ys : List (Nat × List Node)) :
    weights (xs ++ ys) = weights xs + weights ys := by
  induction xs with
  | nil => simp [weights]
  | cons x xs ih =>
    rw [List.cons_append, weights, weights, ih]
    omega

theorem weights_missing (place : Nat) (node : Node) :
    weights (missing place node) < node.weight := by
  unfold missing
  split
  · simp only [weights, Node.weight]
    omega
  · cases node <;> simp only [weights, Node.weight] <;> omega

/-- Fills the rows that lack entries. The row on top of the stack is filled to its end; of the rows
that are new in it, the latest comes next. -/
def complete (rows : List Row) : List (Nat × List Node) → List Row
  | [] => rows
  | (_, []) :: rest => complete rows rest
  | (place, node :: nodes) :: rest =>
    complete (append (enter rows node).2 place (enter rows node).1)
      ((place, nodes) :: (missing rows.length node ++ rest))
termination_by stack => weights stack
decreasing_by
  · simp only [weights]; omega
  · have := weights_missing rows.length node
    simp only [weights, weights_append, Node.weights]
    omega

/-- The entry of a node and all rows, once they are filled. -/
def ofNode (node : Node) : Entry × List Row :=
  ((enter [] node).1, complete (enter [] node).2 (missing 0 node))

/-- What is still to be entered in the row at a place. -/
def due (stack : List (Nat × List Node)) (place : Nat) : List Node :=
  (stack.filter fun waiting => waiting.1 == place).flatMap Prod.snd

/-- The values that entries come to, once all that is due has been entered. -/
inductive Promises (rows : List Row) (due : Nat → List Node) : List Entry → List Value → Prop
  | nil : Promises rows due [] []
  | atom (a : Atom) {entries : List Entry} {values : List Value} :
      Promises rows due entries values →
        Promises rows due (.atom a :: entries) (.atom a :: values)
  | row (place : Nat) (row : Row) {items values : List Value} {entries : List Entry} :
      rows[place]? = some row → Promises rows due row.entries items →
        Promises rows due entries values → Promises rows due (.row place :: entries)
          (.seq row.shape (items ++ (due place).map Node.meaning) :: values)

/-- The values of entries, when nothing is due. -/
def Reads (rows : List Row) : List Entry → List Value → Prop := Promises rows fun _ => []

section

variable {rows rows' : List Row} {due' : Nat → List Node} {entries others : List Entry}
  {values values' : List Value} {stack rest : List (Nat × List Node)} {place : Nat} {node : Node}
  {nodes : List Node}

theorem promises_append {due : Nat → List Node} (first : Promises rows due entries values)
    (second : Promises rows due others values') :
    Promises rows due (entries ++ others) (values ++ values') := by
  induction first with
  | nil => exact second
  | atom a _ ih => exact .atom a ih
  | row place row found items _ _ ih => exact .row place row found items ih

/-- Entries come to one list of values only. -/
theorem promises_unique {due : Nat → List Node} (first : Promises rows due entries values)
    (second : Promises rows due entries values') : values = values' := by
  induction first generalizing values' with
  | nil =>
    cases second
    rfl
  | atom a _ ih =>
    cases second with
    | atom _ following => rw [ih following]
  | row place row found items _ ihItems ih =>
    cases second with
    | row _ row' found' items' following =>
      obtain rfl := Option.some.inj (found.symm.trans found')
      rw [ihItems items', ih following]

@[simp] theorem due_nil (place : Nat) : due [] place = [] := rfl

theorem due_cons_same (place : Nat) (nodes : List Node) (rest : List (Nat × List Node)) :
    due ((place, nodes) :: rest) place = nodes ++ due rest place := by
  simp [due]

theorem due_cons_ne {q : Nat} (other : q ≠ place) (nodes : List Node)
    (rest : List (Nat × List Node)) : due ((place, nodes) :: rest) q = due rest q := by
  simp [due, other.symm]

theorem due_append (xs ys : List (Nat × List Node)) (place : Nat) :
    due (xs ++ ys) place = due xs place ++ due ys place := by
  simp [due]

theorem due_absent (absent : ∀ waiting ∈ stack, waiting.1 ≠ place) : due stack place = [] := by
  simp only [due, List.flatMap_eq_nil_iff, List.mem_filter, beq_iff_eq]
  rintro waiting ⟨member, same⟩
  exact absurd same (absent waiting member)

theorem due_missing_ne {q : Nat} (other : q ≠ place) (node : Node) :
    due (missing place node) q = [] := by
  refine due_absent fun waiting member => ?_
  unfold missing at member
  split at member
  · obtain rfl := List.mem_singleton.mp member
    exact other.symm
  · cases member

theorem length_append (rows : List Row) (place : Nat) (entry : Entry) :
    (append rows place entry).length = rows.length := List.length_modify _ _ _

theorem length_enter (rows : List Row) (node : Node) :
    rows.length ≤ (enter rows node).2.length := by
  fun_cases enter rows node <;> simp

theorem enter_get (rows : List Row) (node : Node) {q : Nat} (inside : q < rows.length) :
    (enter rows node).2[q]? = rows[q]? := by
  fun_cases enter rows node with
  | case1 | case2 => rfl
  | case3 => exact List.getElem?_append_left inside

theorem due_missing_group (place : Nat) (shape : Shape) (items : List Node) (span : Span) :
    due (missing place (.group shape items span)) place = items := by
  cases items with
  | nil => rfl
  | cons n ns => rw [missing, due_cons_same, due_nil, List.append_nil]

/-- A node that has been entered stands for its value: a group is promised by its new row and by
its items, which are now due there. -/
theorem promises_entered
    (new : rows'[rows.length]? = (enter rows node).2[rows.length]?)
    (items_due : due' rows.length = due (missing rows.length node) rows.length) :
    Promises rows' due' [(enter rows node).1] [node.meaning] := by
  fun_cases enter rows node with
  | case1 a => exact .atom a .nil
  | case2 => exact .atom .nil .nil
  | case3 shape items span proper =>
    have value : (Node.group shape items span).meaning =
        .seq shape (items.map Node.meaning) := by
      rw [Node.meaning_group]
      match shape, items with
      | .list, [] => exact (proper rfl rfl).elim
      | .list, n :: ns | .vector, ns => rfl
    have empty : rows'[rows.length]? = some ⟨shape, []⟩ := by
      rw [new, enter]
      · simp
      · exact proper
    have promise : Promises rows' due' [.row rows.length] _ := .row rows.length _ empty .nil .nil
    rwa [items_due, due_missing_group, List.nil_append, ← value] at promise

theorem missing_below (rows : List Row) {waiting : Nat × List Node}
    (member : waiting ∈ missing rows.length node) : waiting.1 < (enter rows node).2.length := by
  unfold missing at member
  split at member
  · obtain rfl := List.mem_singleton.mp member
    simp [enter]
  · cases member

/-- While a node is entered, the rows and what is due in them change at one place. -/
theorem promises_enter (inside : place < rows.length)
    (below : ∀ waiting ∈ rest, waiting.1 < rows.length)
    (promised : Promises rows (due ((place, node :: nodes) :: rest)) entries values) :
    Promises (append (enter rows node).2 place (enter rows node).1)
      (due ((place, nodes) :: (missing rows.length node ++ rest))) entries values := by
  have fresh : rows.length ≠ place := Nat.ne_of_gt inside
  have entered : Promises (append (enter rows node).2 place (enter rows node).1)
      (due ((place, nodes) :: (missing rows.length node ++ rest)))
      [(enter rows node).1] [node.meaning] := by
    refine promises_entered (by simp [append, fresh.symm]) ?_
    rw [due_cons_ne fresh, due_append,
      due_absent fun waiting member => Nat.ne_of_lt (below waiting member), List.append_nil]
  induction promised with
  | nil => exact .nil
  | atom a _ ih => exact .atom a ih
  | @row q row items values entries found _ _ ihItems ih =>
    have known : q < rows.length := (List.getElem?_eq_some_iff.mp found).1
    have still : (enter rows node).2[q]? = some row := (enter_get rows node known).trans found
    by_cases same : q = place
    · subst same
      have grown : (append (enter rows node).2 q (enter rows node).1)[q]? =
          some ⟨row.shape, row.entries ++ [(enter rows node).1]⟩ := by
        simp [append, still]
      have less := due_cons_same q nodes (missing rows.length node ++ rest)
      rw [due_append, due_missing_ne (Nat.ne_of_lt known), List.nil_append] at less
      have kept := Promises.row q _ grown (promises_append ihItems entered) ih
      rw [due_cons_same, List.cons_append, List.map_cons]
      rw [less, List.append_assoc] at kept
      exact kept
    · have kept : (append (enter rows node).2 place (enter rows node).1)[q]? = some row := by
        simp [append, still, Ne.symm same]
      have due_eq : due ((place, nodes) :: (missing rows.length node ++ rest)) q =
          due ((place, node :: nodes) :: rest) q := by
        rw [due_cons_ne same, due_cons_ne same, due_append, due_missing_ne (Nat.ne_of_lt known),
          List.nil_append]
      rw [← due_eq]
      exact .row q row kept ihItems ih

/-- Filling the rows keeps every promise, and leaves nothing due. -/
theorem reads_complete (below : ∀ waiting ∈ stack, waiting.1 < rows.length)
    (promised : Promises rows (due stack) entries values) :
    Reads (complete rows stack) entries values := by
  fun_induction complete rows stack with
  | case1 rows => exact promised
  | case2 rows place rest ih =>
    have same : due ((place, []) :: rest) = due rest := by
      funext q
      by_cases here : q = place
      · rw [here, due_cons_same, List.nil_append]
      · exact due_cons_ne here [] rest
    rw [same] at promised
    exact ih (List.forall_mem_cons.mp below).2 promised
  | case3 rows place node nodes rest ih =>
    obtain ⟨inside, others⟩ := List.forall_mem_cons.mp below
    refine ih (fun waiting member => ?_) (promises_enter inside others promised)
    rw [length_append]
    rcases List.mem_cons.mp member with rfl | member
    · exact Nat.lt_of_lt_of_le inside (length_enter rows node)
    · rcases List.mem_append.mp member with new | old
      · exact missing_below rows new
      · exact Nat.lt_of_lt_of_le (others waiting old) (length_enter rows node)

end

/-- The rows that are made in place for a node read as the value that it denotes. -/
theorem reads_ofNode (node : Node) : Reads (ofNode node).2 [(ofNode node).1] [node.meaning] := by
  exact reads_complete (fun _ member => missing_below [] member) (promises_entered rfl rfl)

end Row

namespace Value

/-- The display forms of the items of a sequence stand apart by one space each. -/
theorem renderItems_eq_intercalate (items : List Value) :
    renderItems items = (" ".intercalate (items.map display)).toList := by
  rw [String.toList_intercalate, List.map_map]
  induction items with
  | nil => rfl
  | cons v vs ih =>
    cases vs with
    | nil => simp [renderItems, toList_display]
    | cons w ws =>
      rw [renderItems, ih, List.map_cons, List.map_cons, List.map_cons,
        List.intercalate_cons_cons]
      simp [toList_display]

theorem display_seq (shape : Shape) (items : List Value) :
    (seq shape items).display = shape.opening.toString ++ " ".intercalate (items.map display) ++
      shape.closing.toString := by
  rw [← String.toList_inj, toList_display, render, renderItems_eq_intercalate]
  simp

end Value

/-- What is made with a stack is what the structure says. Whether the groups of a node are finished
one by one or entered empty and filled later, the value is the one that the node denotes. The pieces
of a text are written in their order, each as it is by itself: a string among the values is not
taken for a bracket or a space between them, and the items of a sequence stand in their order, with
one space between two. -/
theorem toValue_display_structural :
    (∀ node : Node, node.toValue = node.meaning ∧
      ∀ values, Row.Reads (Row.ofNode node).2 [(Row.ofNode node).1] values ↔
        values = [node.toValue]) ∧
    (∀ v : Value, v.display.toList = v.render) ∧
    (∀ (done : String) (pieces : List Value.Piece), (Value.writePieces done pieces).toList =
      done.toList ++ pieces.flatMap Value.Piece.render) ∧
    ∀ (shape : Shape) (items : List Value), (Value.seq shape items).display =
      shape.opening.toString ++ " ".intercalate (items.map Value.display) ++
        shape.closing.toString := by
  refine ⟨fun node => ⟨node.toValue_eq_meaning, fun values => ?_⟩, Value.toList_display,
    Value.toList_writePieces, Value.display_seq⟩
  rw [node.toValue_eq_meaning]
  constructor
  · intro reads
    exact Row.promises_unique reads (Row.reads_ofNode node)
  · rintro rfl
    exact Row.reads_ofNode node

end Lisplet

import Lisplet.Value.Display
import Lisplet.Value.Equality
import Lisplet.Value.OfNode
import Mathlib.Data.List.Forall2

/-!
Values by their structure. Display, equality and the value of a node keep what is left to do in a
list; each does what a recursion on the parts would do.
-/

namespace Lisplet

theorem forall₂_of_mem {α β : Type} {R S : α → β → Prop} {xs : List α} {ys : List β}
    (each : List.Forall₂ R xs ys) (step : ∀ x ∈ xs, ∀ y, R x y → S x y) : List.Forall₂ S xs ys := by
  induction each with
  | nil => exact .nil
  | cons first _ ih =>
    obtain ⟨here, others⟩ := List.forall_mem_cons.mp step
    exact .cons (here _ first) (ih others)

/-- To prove something of every value, prove it of sequences whose items have it and of closures
whose captured values have it. -/
theorem Value.induction {motive : Value → Prop}
    (atom : ∀ a, motive (.atom a))
    (seq : ∀ shape items, (∀ v ∈ items, motive v) → motive (.seq shape items))
    (builtin : ∀ name operation, motive (.builtin name operation))
    (fn : ∀ name params body, motive (.fn name params body))
    (closure : ∀ captured params body, (∀ entry ∈ captured.entries, motive entry.2) →
      motive (.closure captured params body))
    (v : Value) : motive v := by
  refine Value.rec (motive_1 := motive) (motive_2 := fun items => ∀ v ∈ items, motive v)
    (motive_3 := fun captured => ∀ entry ∈ captured.entries, motive entry.2)
    (motive_4 := fun entries => ∀ entry ∈ entries, motive entry.2)
    (motive_5 := fun entry => motive entry.2) atom seq builtin fn closure nofun ?_ ?_ nofun ?_ ?_ v
  · exact fun v items first others => List.forall_mem_cons.mpr ⟨first, others⟩
  · exact fun entries each => each
  · exact fun entry entries first others => List.forall_mem_cons.mpr ⟨first, others⟩
  · exact fun name v holds => holds

theorem Node.induction {motive : Node → Prop} (leaf : ∀ a span, motive (.leaf a span))
    (group : ∀ shape items span, (∀ n ∈ items, motive n) → motive (.group shape items span))
    (n : Node) : motive n := by
  refine Node.rec (motive_1 := motive) (motive_2 := fun items => ∀ n ∈ items, motive n)
    leaf group nofun ?_ n
  exact fun n items first others => List.forall_mem_cons.mpr ⟨first, others⟩

namespace Value

mutual
/-- The characters of the display form. -/
def render : Value → List Char
  | atom a => a.display.toList
  | seq shape items => shape.opening :: (renderItems items ++ [shape.closing])
  | builtin name _ => name.display.toList
  | fn name _ _ => name.display.toList
  | closure .. => ['#', '<', 'c', 'l', 'o', 's', 'u', 'r', 'e', '>']

/-- The items of a sequence with single spaces between them. -/
def renderItems : List Value → List Char
  | [] => []
  | [v] => render v
  | v :: w :: vs => render v ++ ' ' :: renderItems (w :: vs)
end

def Piece.render : Piece → List Char
  | text s => s.toList
  | value v => v.render

theorem render_spaced (items : List Value) :
    (spaced items).flatMap Piece.render = renderItems items := by
  fun_induction spaced items with
  | case1 => rfl
  | case2 v => simp [Piece.render, renderItems]
  | case3 v w vs ih => simp [Piece.render, renderItems, ih]

theorem append_piece {before s : String} {piece : Piece} {rest : List Piece} {after : List Char}
    (same : piece.render = s.toList)
    (written : after = (before ++ s).toList ++ rest.flatMap Piece.render) :
    after = before.toList ++ (piece :: rest).flatMap Piece.render := by
  rw [written, String.toList_append, List.append_assoc, List.flatMap_cons, same]

theorem toList_writePieces (done : String) (pieces : List Piece) :
    (writePieces done pieces).toList = done.toList ++ pieces.flatMap Piece.render := by
  fun_induction writePieces done pieces with
  | case1 => simp
  | case2 | case3 | case4 | case5 | case6 =>
    rename_i ih
    exact append_piece rfl ih
  | case7 done shape items rest ih =>
    rw [ih]
    simp [render_spaced, Piece.render, Value.render]

theorem toList_display (v : Value) : v.display.toList = v.render := by
  rw [display, toList_writePieces]
  simp [Piece.render]

theorem allEqual_append (xs ys : List (Value × Value)) :
    allEqual (xs ++ ys) = (allEqual xs && allEqual ys) := by
  fun_induction allEqual xs with
  | case1 => rfl
  | case2 a b rest ih => rw [List.cons_append, allEqual, ih, Bool.and_assoc]
  | case3 shape xs shape' ys' rest ih =>
    rw [List.cons_append, allEqual, ← List.append_assoc, ih]
    simp only [Bool.and_assoc]
  | case4 xs nonempty atoms sequences =>
    obtain ⟨⟨v, w⟩, rest, rfl⟩ := List.exists_cons_of_ne_nil nonempty
    rw [List.cons_append, allEqual]
    · rfl
    · simp
    · intro a b rest' same
      obtain ⟨rfl, rfl⟩ := Prod.mk.inj (List.cons.inj same).1
      exact atoms a b rest rfl
    · intro shape xs shape' ys' rest' same
      obtain ⟨rfl, rfl⟩ := Prod.mk.inj (List.cons.inj same).1
      exact sequences shape xs shape' ys' rest rfl

theorem allEqual_cons (v w : Value) (rest : List (Value × Value)) :
    allEqual ((v, w) :: rest) = (v.isEqual w && allEqual rest) :=
  allEqual_append [(v, w)] rest

@[simp] theorem isEqual_atom (a b : Atom) : isEqual (.atom a) (.atom b) = a.isEqual b := by
  rw [isEqual, allEqual, allEqual, Bool.and_true]

@[simp] theorem isEqual_seq (shape shape' : Shape) (xs ys : List Value) :
    isEqual (.seq shape xs) (.seq shape' ys) ↔
      shape = shape' ∧ List.Forall₂ (fun v w => v.isEqual w) xs ys := by
  have items : xs.length = ys.length ∧ allEqual (xs.zip ys) ↔
      List.Forall₂ (fun v w => v.isEqual w) xs ys := by
    induction xs generalizing ys with
    | nil => cases ys <;> simp [allEqual]
    | cons v vs ih =>
      cases ys with
      | nil => simp
      | cons w ws =>
        rw [List.forall₂_cons, ← ih, List.zip_cons_cons, allEqual_cons, Bool.and_eq_true,
          List.length_cons, List.length_cons, Nat.add_right_cancel_iff]
        exact and_left_comm
  rw [isEqual, allEqual, List.append_nil, ← items]
  simp [and_assoc]

theorem not_isEqual_atom_seq (a : Atom) (shape : Shape) (items : List Value) :
    isEqual (.atom a) (.seq shape items) = false := by
  rw [isEqual, allEqual] <;> simp

theorem not_isEqual_seq_atom (shape : Shape) (items : List Value) (a : Atom) :
    isEqual (.seq shape items) (.atom a) = false := by
  rw [isEqual, allEqual] <;> simp

theorem not_callable_isEqual {v : Value} (w : Value) (callable : v.isCallable) :
    isEqual v w = false := by
  rw [isEqual, allEqual]
  · simp
  · rintro a b rest same
    cases same
    cases callable
  · rintro shape xs shape' ys rest same
    cases same
    cases callable

theorem not_isEqual_callable {v : Value} (w : Value) (callable : v.isCallable) :
    isEqual w v = false := by
  rw [isEqual, allEqual]
  · simp
  · rintro a b rest same
    cases same
    cases callable
  · rintro shape xs shape' ys rest same
    cases same
    cases callable

end Value

namespace Node

/-- A group with its last items still to be read is the group with their values. -/
theorem fill_items (shape : Shape) (built : List Value) (items : List Node) (stack : List Filling)
    (each : ∀ n ∈ items, ∀ shape built pending stack,
      fill shape built (n :: pending) stack = fill shape (n.toValue :: built) pending stack) :
    fill shape built items stack = fill shape ((items.map toValue).reverse ++ built) [] stack := by
  induction items generalizing built with
  | nil => rfl
  | cons n ns ih =>
    obtain ⟨first, rest⟩ := List.forall_mem_cons.mp each
    rw [first, ih _ rest]
    simp

theorem fill_cons : ∀ (n : Node) (shape : Shape) (built : List Value) (pending : List Node)
    (stack : List Filling),
    fill shape built (n :: pending) stack = fill shape (n.toValue :: built) pending stack
  | leaf a span, shape, built, pending, stack => by rw [fill, toValue]
  | group inner items span, shape, built, pending, stack => by
    have each := fun n (_ : n ∈ items) => fill_cons n
    rw [fill, fill_items _ _ _ _ each, fill, toValue, fill_items _ _ _ _ each, fill]

/-- The value of a group is the sequence of the values of its items. -/
theorem toValue_group (shape : Shape) (items : List Node) (span : Span) :
    (group shape items span).toValue = .ofItems shape (items.map toValue) := by
  rw [toValue, fill_items _ _ _ _ fun n _ => fill_cons n, fill, List.append_nil,
    List.reverse_reverse]

end Node
end Lisplet

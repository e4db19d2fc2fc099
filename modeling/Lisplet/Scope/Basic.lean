import Lisplet.Symbol

/-!
Scopes: what symbols are bound to. A scope lists each name once, in the order of first
definition; a later definition of a name replaces the value and keeps the place. Every scope has
its bindings for itself, so a copy never sees what happens to its original.
-/

namespace Lisplet

structure Scope (α : Type) where
  entries : List (Symbol × α)

namespace Scope

variable {α : Type}

def empty : Scope α := ⟨[]⟩

/-- Replaces the value of a name where it stands, or puts the name at the end. -/
def insert (name : Symbol) (value : α) : List (Symbol × α) → List (Symbol × α)
  | [] => [(name, value)]
  | (k, v) :: rest => if k = name then (k, value) :: rest else (k, v) :: insert name value rest

def define (scope : Scope α) (name : Symbol) (value : α) : Scope α :=
  ⟨insert name value scope.entries⟩

def ofList (bindings : List (Symbol × α)) : Scope α :=
  bindings.foldl (fun scope (name, value) => scope.define name value) empty

/-- A scope with given bindings, no name twice, in their order. They are its own from then on. -/
def ofBindings (bindings : List (Symbol × α)) : Scope α := ⟨bindings⟩

/-- A new scope with the bindings of another one. The values in it are the same: no value is ever
changed in place. -/
def copy (scope : Scope α) : Scope α := ofBindings scope.entries

@[simp] theorem copy_eq (scope : Scope α) : scope.copy = scope := rfl

def lookup (scope : Scope α) (name : Symbol) : Option α :=
  (scope.entries.find? fun (k, _) => k = name).map Prod.snd

def contains (scope : Scope α) (name : Symbol) : Bool := (scope.lookup name).isSome

/-- The bound names in the order of their first definition. -/
def keys (scope : Scope α) : List Symbol := scope.entries.map Prod.fst

/-- The bound names in the order of code points. -/
def names (scope : Scope α) : List Symbol := scope.keys.mergeSort Symbol.le

def size (scope : Scope α) : Nat := scope.entries.length

end Scope
end Lisplet

import Lisplet.Value.Debug
import Lisplet.Value.Equality

/-!
Definitions under names that are themselves values. Only a symbol can be defined; looking
anything else up finds nothing. A bulk definition first collects its pairs by name, so a repeated
name keeps its first place and takes its last value, and it stops at the first name that is no
symbol, the definitions before it being made.
-/

namespace Lisplet

/-- The name of a definition is no symbol. -/
structure NameFault where
  name : Value

namespace NameFault

def message (fault : NameFault) : String :=
  "Cannot define " ++ fault.name.debug ++ " as a symbol"

end NameFault

namespace Scope

def defineNamed (scope : Scope Value) (name value : Value) : Except NameFault (Scope Value) :=
  match name with
  | .atom (.symbol s) => .ok (scope.define s value)
  | other => .error ⟨other⟩

def lookupNamed (scope : Scope Value) : Value → Option Value
  | .atom (.symbol s) => scope.lookup s
  | _ => none

/-- Replaces the value under an equal name where it stands, or puts the pair at the end. -/
def insertNamed (name value : Value) : List (Value × Value) → List (Value × Value)
  | [] => [(name, value)]
  | (k, v) :: rest =>
    if k.isEqual name then (k, value) :: rest else (k, v) :: insertNamed name value rest

def collect (pairs : List (Value × Value)) : List (Value × Value) :=
  pairs.foldl (fun kept (name, value) => insertNamed name value kept) []

/-- Makes the definitions in order up to the first name that is no symbol. -/
def defineAll (scope : Scope Value) : List (Value × Value) → Option NameFault × Scope Value
  | [] => (none, scope)
  | (name, value) :: rest =>
    match scope.defineNamed name value with
    | .ok scope => scope.defineAll rest
    | .error fault => (some fault, scope)

def update (scope : Scope Value) (pairs : List (Value × Value)) :
    Option NameFault × Scope Value :=
  scope.defineAll (collect pairs)

end Scope
end Lisplet

/-!
The operations of the language and the names under which programs find them. Among them are the
special forms, which decide themselves what to evaluate; in every other respect they are
operations like all others and can be bound to other names.
-/

namespace Lisplet

/-- What the language itself knows how to do, and one operation that is a host's. -/
inductive Operation where
  | add
  | subtract
  | multiply
  | divide
  | equal
  | less
  | greater
  | lessOrEqual
  | greaterOrEqual
  | negate
  | concat
  | chars
  | join
  | vector
  | nth
  | parseNumber
  | println
  | quote
  | choose
  | conjunction
  | disjunction
  | bindLocals
  | defineFunction
  | defineConstant
  | makeClosure
  /-- No operation of the language: it stands for one that a host brings along and defines under a
  name of its own. It takes any arguments, evaluates none of them, and answers nil. -/
  | ignore
deriving DecidableEq

namespace Operation

/-- The operations under their names, in the order in which a fresh session binds them. -/
def table : List (String × Operation) := [
  ("+", add), ("-", subtract), ("*", multiply), ("/", divide),
  ("=", equal), ("<", less), (">", greater), ("<=", lessOrEqual), (">=", greaterOrEqual),
  ("not", negate), ("str", concat), ("chars", chars), ("join", join), ("vec", vector),
  ("nth", nth), ("parse-num", parseNumber), ("println", println),
  ("quote", quote), ("if", choose), ("and", conjunction), ("or", disjunction),
  ("let", bindLocals), ("fn", defineFunction), ("const", defineConstant),
  ("lambda", makeClosure), ("λ", makeClosure)]

end Operation
end Lisplet

import Lisplet.Node.Basic

/-!
Bracketing. A row of tokens is balanced if every opening bracket is closed by one of its shape;
it is pending if that fails only for brackets that are not closed at all. Written out as tokens,
a forest is balanced.
-/

namespace Lisplet

namespace Span

/-- The first character. -/
def first (s : Span) : Span := { s with stop := s.start + 1 }

/-- The last character. -/
def last (s : Span) : Span := { s with start := s.stop - 1 }

end Span

namespace Token

def isComment (t : Token) : Bool :=
  match t.kind with
  | .comment _ => true
  | _ => false

/-- The tokens that make nodes. -/
def significant (tokens : List Token) : List Token := tokens.filter fun t => !t.isComment

theorem significant_append (xs ys : List Token) :
    significant (xs ++ ys) = significant xs ++ significant ys := List.filter_append ..

end Token

inductive Balanced : List Token → Prop where
  | nil : Balanced []
  | atom {t a ts} : t.kind = .atom a → Balanced ts → Balanced (t :: ts)
  | nest {o c shape inner rest} : o.kind = .opening shape → c.kind = .closing shape →
      Balanced inner → Balanced rest → Balanced (o :: (inner ++ c :: rest))

/-- Tokens after which the given opening brackets wait for their closing ones, the innermost
first: between them everything is balanced. -/
inductive Pending : List Token → List Token → Prop where
  | closed {ts} : Balanced ts → Pending ts []
  | opened {ts outer o shape inner} : Pending ts outer → o.kind = .opening shape →
      Balanced inner → Pending (ts ++ o :: inner) (o :: outer)

theorem Balanced.append {xs ys : List Token} (first : Balanced xs) (last : Balanced ys) :
    Balanced (xs ++ ys) := by
  induction first with
  | nil => exact last
  | atom leaf _ ih => exact .atom leaf ih
  | nest opening closing inner _ _ ih =>
    rw [List.cons_append, List.append_assoc, List.cons_append]
    exact .nest opening closing inner ih

namespace Node

mutual
/-- A node as tokens: a leaf is its own token, and a group stands between its brackets, which are
the first and the last character of its span. -/
def tokens : Node → List Token
  | leaf a span => [⟨.atom a, span⟩]
  | group shape items span =>
    ⟨.opening shape, span.first⟩ :: (tokensOf items ++ [⟨.closing shape, span.last⟩])

/-- A forest as tokens. -/
def tokensOf : List Node → List Token
  | [] => []
  | n :: ns => tokens n ++ tokensOf ns
end

theorem tokensOf_append (xs ys : List Node) : tokensOf (xs ++ ys) = tokensOf xs ++ tokensOf ys := by
  induction xs with
  | nil => rfl
  | cons n ns ih => simp only [List.cons_append, tokensOf, ih, List.append_assoc]

mutual
theorem tokens_balanced : ∀ node : Node, Balanced node.tokens
  | leaf _ _ => .atom rfl .nil
  | group _ items _ => .nest rfl rfl (tokensOf_balanced items) .nil

theorem tokensOf_balanced : ∀ forest : List Node, Balanced (tokensOf forest)
  | [] => .nil
  | n :: ns => (tokens_balanced n).append (tokensOf_balanced ns)
end

end Node

/-- What is wrong at the next place of a row of tokens, given the brackets that are open before
it: a token cannot be read, a bracket closes nothing or the wrong bracket, or the row ends. -/
inductive Offence : List Token → Option (Except LexError Token) → ParseError → Prop where
  | unreadable {opened e} : Offence opened (some (.error e)) (.ofLex e)
  | unexpected {t shape} : t.kind = .closing shape →
      Offence [] (some (.ok t)) ⟨.unexpectedClose, t.span⟩
  | unmatched {o outer t shape shape'} : o.kind = .opening shape → t.kind = .closing shape' →
      shape ≠ shape' → Offence (o :: outer) (some (.ok t)) ⟨.unmatched, t.span⟩
  | unclosed {o outer} : Offence (o :: outer) none ⟨.unclosed, o.span⟩

/-- The error of the first offending place: all tokens before it are pending. -/
def FirstOffence (lexemes : List (Except LexError Token)) (e : ParseError) : Prop :=
  ∃ before after opened, lexemes = before.map .ok ++ after ∧
    Pending (Token.significant before) opened ∧ Offence opened after.head? e

end Lisplet

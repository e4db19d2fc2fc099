import Lisplet.Proofs.Guarded.Partial
import Lisplet.Proofs.Node.Forest
import Mathlib.Tactic.SplitIfs

/-!
Reading with its checks. A word is tried as a number, and if it is none that is a fault of the
text; a character is made of a text that has been found to have one. The parser fills nodes in
place: it pushes what it has finished into the node around it, which has to be a group, and makes
leaves of tokens, which must not be brackets or comments. It does so where they are.
-/

namespace Lisplet.Guarded

/-! Tokens. -/

def number (w : List Char) : Except Breakdown Scan :=
  match Partial.numeral w with
  | .ok x => .ok (.token (.atom (.number x)) w.length)
  | .error (.numeral word) => .ok (.fault (.invalidNumber word) 0 w.length w.length)
  | .error other => .error other

/-- The end of a character literal for the only character of `text`. -/
def closeChar (text : String) (length : Nat) : List Char → Except Breakdown Scan
  | [] => .ok (.fault .unclosedChar 0 length length)
  | d :: rest =>
    if d = '\x27' then return .token (.atom (.char (← Partial.char text))) (length + 1)
    else
      let whole := length + (Scan.word (d :: rest)).length
      .ok (.fault .invalidChar 0 whole whole)

def char : List Char → Except Breakdown Scan
  | [] => .ok (.fault .unclosedChar 0 1 1)
  | '\\' :: [] => .ok (.fault .unclosedChar 0 1 2)
  | '\\' :: c :: rest =>
    match Scan.unescape? c with
    | some d => closeChar d.toString 3 rest
    | none => .ok (.fault (.invalidEscape c.toString) 1 3 3)
  | c :: rest =>
    if c = '\x27' then
      let whole := 2 + (Scan.word rest).length
      .ok (.fault .invalidChar 0 whole whole)
    else closeChar c.toString 2 rest

def scan (c : Char) (rest : List Char) : Except Breakdown Scan :=
  match Scan.bracket? c with
  | some kind => .ok (.token kind 1)
  | none =>
    if Scan.startsNumber c rest then number (c :: Scan.word rest)
    else if c = ';' then .ok (Scan.comment rest)
    else if c = ':' then .ok (Scan.keyword rest)
    else if c = '"' then .ok (Scan.string rest)
    else if c = '\x27' then char rest
    else .ok (Scan.symbol (c :: Scan.word rest))

theorem number_eq (w : List Char) : number w = .ok (Scan.number w) := by
  unfold number Partial.numeral Scan.number
  cases Number.read? w with
  | none => rfl
  | some x => rfl

theorem closeChar_eq (c : Char) (length : Nat) (rest : List Char) :
    closeChar c.toString length rest = .ok (Scan.closeChar c length rest) := by
  cases rest with
  | nil => rfl
  | cons d rest =>
    rw [closeChar, Scan.closeChar, Partial.char_single]
    split_ifs
    · rfl
    · rfl

theorem char_eq (rest : List Char) : char rest = .ok (Scan.char rest) := by
  cases rest with
  | nil => rfl
  | cons c rest =>
    by_cases backslash : c = '\\'
    · subst backslash
      cases rest with
      | nil => rfl
      | cons c rest =>
        rw [char, Scan.char]
        cases Scan.unescape? c with
        | none => rfl
        | some d => exact closeChar_eq d 3 rest
    · rw [char, Scan.char]
      · split_ifs
        · rfl
        · exact closeChar_eq c 2 rest
      all_goals
        intros
        contradiction

theorem scan_eq (c : Char) (rest : List Char) : scan c rest = .ok (Scan.scan c rest) := by
  unfold scan Scan.scan
  cases Scan.bracket? c with
  | some kind => rfl
  | none =>
    dsimp only
    rw [number_eq, char_eq]
    split_ifs
    all_goals rfl

/-- Reads the next token, skipping the gap before it. -/
def read (c : Cursor) : Except Breakdown (Option (Except LexError Token) × Cursor) :=
  let c := c.skipGaps
  match c.rest with
  | [] => .ok (none, c)
  | char :: rest => do
    let found ← scan char rest
    return (some (c.located found), c.move found.length)

theorem read_eq (c : Cursor) : read c = .ok c.read := by
  unfold read Cursor.read
  dsimp only
  cases c.skipGaps.rest with
  | nil => rfl
  | cons char rest =>
    dsimp only
    rw [scan_eq]
    rfl

def lexemes (c : Cursor) : Except Breakdown (List (Except LexError Token)) :=
  match _ : read c with
  | .error breakdown => .error breakdown
  | .ok (none, _) => .ok []
  | .ok (some lexeme, after) => return lexeme :: (← lexemes after)
termination_by c.rest.length
decreasing_by
  have found : read c = .ok (some lexeme, after) := ‹_›
  rw [read_eq] at found
  exact Cursor.length_read_lt (Except.ok.inj found)

theorem lexemes_of_read {c : Cursor} {found : Option (Except LexError Token)} {after : Cursor}
    (found_eq : c.read = (found, after)) :
    lexemes c = match found with
      | none => .ok []
      | some lexeme => return lexeme :: (← lexemes after) := by
  have here : read c = .ok (found, after) := (read_eq c).trans (congrArg Except.ok found_eq)
  rw [lexemes]
  split
  · rename_i other
    rw [here] at other
    cases other
  · rename_i other
    rw [here] at other
    cases other
    rfl
  · rename_i other
    rw [here] at other
    cases other
    rfl

theorem lexemes_eq (c : Cursor) : lexemes c = .ok c.lexemes := by
  induction c using Cursor.lexemes.induct with
  | case1 c after ended => rw [lexemes_of_read ended, Cursor.lexemes_of_none ended]
  | case2 c found after read ih =>
    rw [lexemes_of_read read, Cursor.lexemes_of_some read]
    dsimp only
    rw [ih]
    rfl

/-! Nodes. -/

/-- The node that is being filled and those around it, the innermost first. -/
structure Stack where
  current : Node
  parents : List Node

/-- A step of the parser: it may break down, and it may find something wrong with the text. -/
abbrev Parsing (α : Type) : Type := ExceptT ParseError (Except Breakdown) α

def found {α : Type} (result : Except ParseError α) : Parsing α := ExceptT.mk (.ok result)

def whole {α : Type} (result : Except Breakdown α) : Parsing α := ExceptT.lift result

theorem found_bind {α β : Type} (a : α) (f : α → Parsing β) : (found (.ok a) >>= f) = f a := rfl

theorem whole_bind {α β : Type} (a : α) (f : α → Parsing β) : (whole (.ok a) >>= f) = f a := rfl

theorem run_bind {α β : Type} (x : Parsing α) (f : α → Parsing β) :
    (x >>= f).run = match x.run with
      | .error breakdown => .error breakdown
      | .ok (.error e) => .ok (.error e)
      | .ok (.ok a) => (f a).run := by
  rcases x with breakdown | e | a
  · rfl
  · rfl
  · rfl

def shape? : Node → Option Shape
  | .leaf .. => none
  | .group shape _ _ => some shape

def feed (stack : Stack) (token : Token) : Parsing Stack :=
  match token.kind with
  | .comment _ => pure stack
  | .opening shape => pure ⟨.group shape [] token.span, stack.current :: stack.parents⟩
  | .closing shape =>
    match stack.parents with
    | [] => throw ⟨.unexpectedClose, token.span⟩
    | parent :: outer => do
      let closed ← whole (Partial.extend stack.current token.span)
      if shape? closed = some shape then return ⟨← found (parent.push closed), outer⟩
      else throw ⟨.unmatched, token.span⟩
  | _ => do
    let leaf ← found (Node.ofToken token)
    return ⟨← found (stack.current.push leaf), stack.parents⟩

def finish (stack : Stack) : Parsing (List Node) :=
  if stack.parents.isEmpty then
    match stack.current with
    | .group .list items _ => pure items
    | other => throw ⟨.unreachable, other.span⟩
  else throw ⟨.unclosed, stack.current.span⟩

def readForest (stack : Stack) : List (Except LexError Token) → Parsing (List Node)
  | [] => finish stack
  | .error e :: _ => throw (.ofLex e)
  | .ok token :: rest => do readForest (← feed stack token) rest

/-- Parses a source. The top-level forms are filled into a list of their own. -/
def parse (source : Source) : Except Breakdown (Except ParseError (List Node)) := do
  let lexemes ← lexemes (.atStart source)
  (readForest ⟨.group .list [] (.emptyAt source 0), []⟩ lexemes).run

end Lisplet.Guarded

namespace Lisplet

def OpenGroup.node (group : OpenGroup) : Node :=
  .group group.shape group.items.reverse group.opening

namespace Growth

/-- The nodes that are being filled while a forest grows. -/
def stack (root : Span) (g : Growth) : Guarded.Stack :=
  match g.opened with
  | [] => ⟨.group .list g.forms.reverse root, []⟩
  | inner :: outer =>
    ⟨inner.node, outer.map OpenGroup.node ++ [.group .list g.forms.reverse root]⟩

variable {source : Source} {root : Span} {g : Growth} {before : List Token} {t : Token}

/-- A finished node is pushed into a group, into the list of the forms if into none else. -/
theorem push_stack (root : Span) (g : Growth) (node : Node) :
    (g.stack root).current.push node = .ok ((g.add node).stack root).current ∧
      (g.stack root).parents = ((g.add node).stack root).parents := by
  obtain ⟨forms, opened⟩ := g
  cases opened with
  | nil => simp [stack, add, Node.push]
  | cons inner outer => simp [stack, add, Node.push, OpenGroup.node]

/-- The nodes around an open group are those that are being filled once it is closed. -/
theorem parents_stack (root : Span) (forms : List Node) (inner : OpenGroup)
    (outer : List OpenGroup) :
    (stack root ⟨forms, inner :: outer⟩).parents =
      (stack root ⟨forms, outer⟩).current :: (stack root ⟨forms, outer⟩).parents := by
  cases outer with
  | nil => rfl
  | cons group outer => rfl

theorem extend_node {inner : OpenGroup} {span : Span} (same : inner.opening.source = span.source) :
    Partial.extend inner.node span =
      .ok (.group inner.shape inner.items.reverse (inner.opening.through span)) := by
  have sameSource : inner.opening.sameSource span = true := by
    rw [Span.sameSource, same]
    exact beq_self_eq_true _
  simp only [Partial.extend, OpenGroup.node, Node.span, Span.extend, sameSource, if_true]

/-- The step lemma: the parser that fills nodes in place goes along with the forest that grows. -/
theorem feed_stack (root : Span) (grown : Grown source g before) (placed : t.Placed source) :
    (Guarded.feed (g.stack root) t).run = .ok ((g.feed t).map (stack root)) := by
  obtain ⟨kind, span⟩ := t
  obtain ⟨forms, opened⟩ := g
  cases kind with
  | comment text => rfl
  | opening shape =>
    cases opened with
    | nil => rfl
    | cons inner outer => rfl
  | closing shape =>
    cases opened with
    | nil => rfl
    | cons inner outer =>
      have first := grown.placed inner.bracket List.mem_cons_self
      have closed : Partial.extend inner.node span = _ :=
        extend_node (first.source_eq.trans placed.source_eq.symm)
      obtain ⟨pushed, around⟩ := push_stack root ⟨forms, outer⟩
        (.group inner.shape inner.items.reverse (inner.opening.through span))
      have filled : (stack root ⟨forms, inner :: outer⟩).current = inner.node := rfl
      simp only [Guarded.feed, parents_stack, filled, closed, Growth.feed, close,
        Guarded.whole_bind]
      by_cases same : inner.shape = shape
      · have fits : Guarded.shape? (.group inner.shape inner.items.reverse
            (inner.opening.through span)) = some shape := congrArg some same
        rw [if_pos same, if_pos fits, pushed, Guarded.found_bind, around]
        rfl
      · have differs : Guarded.shape? (.group inner.shape inner.items.reverse
            (inner.opening.through span)) ≠ some shape := same ∘ Option.some.inj
        rw [if_neg same, if_neg differs]
        rfl
  | atom a =>
    obtain ⟨pushed, around⟩ := push_stack root ⟨forms, opened⟩ (.leaf a span)
    simp only [Guarded.feed, Node.ofToken, around, Guarded.found_bind, pushed]
    rfl

theorem finish_stack (root : Span) (g : Growth) :
    (Guarded.finish (g.stack root)).run = .ok g.finish := by
  obtain ⟨forms, opened⟩ := g
  cases opened with
  | nil => rfl
  | cons inner outer =>
    simp only [Guarded.finish, parents_stack]
    rfl

end Growth

namespace Guarded

/-- The run lemma: the parsers go along with one another to the end. -/
theorem readForest_stack {source : Source} (root : Span) {g : Growth} {before : List Token}
    (grown : g.Grown source before) {lexemes : List (Except LexError Token)}
    (placed : ∀ t, .ok t ∈ lexemes → t.Placed source) :
    (readForest (g.stack root) lexemes).run = .ok (Parser.readForest g lexemes).1 := by
  induction lexemes generalizing g before with
  | nil => exact g.finish_stack root
  | cons lexeme rest ih =>
    cases lexeme with
    | error e => rfl
    | ok t =>
      have here := placed t List.mem_cons_self
      have later : ∀ t, .ok t ∈ rest → t.Placed source :=
        fun t member => placed t (List.mem_cons_of_mem _ member)
      have step := g.feed_stack root grown here
      rw [readForest, Parser.readForest, run_bind]
      cases fed : g.feed t with
      | error e =>
        rw [step, fed]
        rfl
      | ok after =>
        rw [step, fed]
        exact ih (grown.feed here fed) later

theorem parse_eq (source : Source) : parse source = .ok source.parse := by
  rw [parse, lexemes_eq]
  exact readForest_stack (.emptyAt source 0) (Growth.Grown.empty source)
    (Cursor.lexemes_placed (.atStart source))

end Guarded
end Lisplet

import Lisplet.Proofs.Eval.Binding
import Lisplet.Proofs.Token.Bare

/-!
Numbers that are written and read again. What is written of a number reads as the number, finite or
not. A finite one is written as a word without an exponent, and the whole word is lexed as it. So
a program that makes text of a number and parses the text has the number again.
-/

namespace Lisplet

namespace Number

/-- The infinities and what is no number are written as words that are read as them. -/
theorem read?_display_special {x : Float} (special : x.isFinite = false) :
    read? (display x).toList = some x := by
  change x.toModel.unpack.isFinite = false at special
  cases unpacked : x.toModel.unpack with
  | zero | finite =>
    rw [unpacked] at special
    cases special
  | notANumber =>
    have written : display x = "NaN" := by simp [display, Binary.ofFloat, unpacked]
    rw [written, Binary.eq_of_unpack unpacked]
    rfl
  | infinity s =>
    rw [display, Binary.ofFloat, unpacked, Binary.eq_of_unpack unpacked]
    cases s <;> rfl

theorem read?_display_self (x : Float) : read? (display x).toList = some x := by
  cases finite : x.isFinite with
  | true => exact read?_display finite
  | false => exact read?_display_special finite

/-- A finite number is written in digits, with a point and a sign if need be. -/
theorem display_plain {x : Float} (finite : x.isFinite) :
    ∀ c ∈ (display x).toList, c.isDigit ∨ c = '.' ∨ c = '-' := by
  obtain ⟨negative, text, d, written, numeral, -⟩ := display_finite finite
  have plain : ∀ c ∈ text, c.isDigit ∨ c = '.' ∨ c = '-' :=
    fun c member => (plain_of_numeral numeral c member).imp_right .inl
  rw [written, signed, String.toList_ofList]
  cases negative with
  | true => exact List.forall_mem_cons.mpr ⟨.inr (.inr rfl), plain⟩
  | false => exact plain

example : display (-1.5e-7) = "-0.00000015" := by decide +kernel

/-- All of what is written of a finite number is lexed as the number. -/
theorem lexemes_display {x : Float} (finite : x.isFinite) (name : Option String) :
    let source := Source.ofText (display x) name
    source.lexemes = [.ok ⟨.atom (.number x), ⟨0, (display x).toList.length, source⟩⟩] := by
  obtain ⟨c, cs, written, unbroken, plain, digits⟩ := display_word finite
  have read := read?_display finite
  rw [written] at read
  have classified := Scan.Classified.number (Scan.startsNumber_iff.mp digits) read
  exact Cursor.lexemes_bare written plain.2 unbroken classified name

/-- All of what is written of another number is lexed as a symbol. -/
theorem lexemes_display_special {x : Float} (special : x.isFinite = false)
    (name : Option String) :
    let source := Source.ofText (display x) name
    source.lexemes =
      [.ok ⟨.atom (.symbol ⟨display x⟩), ⟨0, (display x).toList.length, source⟩⟩] := by
  obtain ⟨c, cs, written, unbroken, plain, digits, symbol⟩ := display_symbol special
  have classified : Scan.Classified (c :: cs)
      (.ok (.atom (.symbol ⟨String.ofList (c :: cs)⟩))) := by
    refine .symbol ?_ ?_ (Scan.wordAtom_eq_symbol_iff.mp symbol).2
    · exact mt Scan.startsNumber_iff.mpr (by simp [digits])
    · simpa using plain.1
  have lexed := Cursor.lexemes_bare written plain.2 unbroken classified name
  rwa [← written, String.ofList_toList] at lexed

end Number

theorem Value.text_number (x : Float) : (Value.number x).text = Number.display x := by
  change writePieces "" [.value (.atom (.number x))] = _
  rw [writePieces, writePieces, String.empty_append, Atom.display]

namespace Eval

variable {ctx : Context} {name operator : Symbol} {node : Node} {headSpan span : Span}

theorem act_ask_of_ok {α : Type} {v : Value} (value : (eval node ctx).1 = .ok v)
    (next : Value → Course α) :
    (Course.ask ctx.locals node next).act eval ctx = (next v).act eval (eval node ctx).2 := by
  have result : withLocals ctx.locals (eval node) ctx = (.ok v, (eval node ctx).2) :=
    (withLocals_self (eval_restored node) ctx).trans (Prod.ext value rfl)
  exact bind_of_ok result _

theorem fst_calling {α : Type} (head : Span) (x : Eval α) (ctx : Context) :
    (calling head x ctx).1 = (x (ctx.inside head)).1 := rfl

section

variable (allowed : ctx.depth + 1 ≤ ctx.maxDepth)
include allowed

/-- A call of an operation that has its only argument evaluated and then comes to a value. -/
theorem eval_asking {operation : Operation} {next : Value → Course Value} {v w : Value}
    (resolved : ctx.lookup operator = some (.builtin name operation))
    (asks : operation.course ctx.terminal ctx.locals [node] = .ask ctx.locals node next)
    (value : (eval node (ctx.inside headSpan)).1 = .ok v) (done : next v = .done w) :
    (eval (.group .list [.leaf (.symbol operator) headSpan, node] span) ctx).1 = .ok w := by
  have course : Course.apply ctx.terminal ctx.locals (.builtin name operation) [node] =
      .ask ctx.locals node next := asks
  rw [eval_call_of_head allowed (eval_resolved (ctx.inside headSpan) resolved headSpan),
    fst_calling, course]
  refine (congrArg Prod.fst (act_ask_of_ok value next)).trans ?_
  rw [done]
  rfl

/-- A string is made of the text of one argument. -/
theorem eval_concat {v : Value} (resolved : ctx.lookup operator = some (.builtin name .concat))
    (value : (eval node (ctx.inside headSpan)).1 = .ok v) :
    (eval (.group .list [.leaf (.symbol operator) headSpan, node] span) ctx).1 =
      .ok (.string v.text) := by
  have text : String.join [v.text] = v.text := by simp [String.join]
  refine eval_asking allowed resolved rfl value ?_
  change Course.done (Value.string (String.join [v.text])) = _
  rw [text]

/-- A text that reads as a number is parsed as the number. -/
theorem eval_parseNumber {s : String} {x : Float}
    (resolved : ctx.lookup operator = some (.builtin name .parseNumber))
    (value : (eval node (ctx.inside headSpan)).1 = .ok (.string s))
    (read : Number.read? s.toList = some x) :
    (eval (.group .list [.leaf (.symbol operator) headSpan, node] span) ctx).1 =
      .ok (.number x) := by
  refine eval_asking allowed resolved rfl value ?_
  simp only [Course.need, Value.string?, bind, Course.bind, read]
  rfl

end

end Eval

open Eval in
/-- Printed numbers read back. The display form of every number reads as the number, bit for bit.
That of a finite number is written without an exponent, and all of it is lexed as the number; that
of another is lexed as a symbol. Where two more calls are allowed, parsing the text of an argument
gives the number that the argument has. -/
theorem printed_numbers_read_back :
    (∀ x : Float, Number.read? (Number.display x).toList = some x) ∧
    (∀ (x : Float) (name : Option String),
      let source := Source.ofText (Number.display x) name
      let whole : Span := ⟨0, (Number.display x).toList.length, source⟩
      (x.isFinite →
        (∀ c ∈ (Number.display x).toList, c.isDigit ∨ c = '.' ∨ c = '-') ∧
          source.lexemes = [.ok ⟨.atom (.number x), whole⟩]) ∧
      (x.isFinite = false →
        source.lexemes = [.ok ⟨.atom (.symbol ⟨Number.display x⟩), whole⟩])) ∧
    ∀ (ctx : Context) (parse text : Symbol) (node : Node) (x : Float)
      (parseSpan textSpan inner outer : Span),
      ctx.lookup ⟨"parse-num"⟩ = some (.builtin parse .parseNumber) →
      ctx.lookup ⟨"str"⟩ = some (.builtin text .concat) →
      ctx.depth + 2 ≤ ctx.maxDepth →
      ((eval node).run ((ctx.inside parseSpan).inside textSpan)).1 = .ok (.number x) →
      ((eval (.group .list [.leaf (.symbol ⟨"parse-num"⟩) parseSpan,
        .group .list [.leaf (.symbol ⟨"str"⟩) textSpan, node] inner] outer)).run ctx).1 =
          .ok (.number x) := by
  refine ⟨Number.read?_display_self, ?_, ?_⟩
  · intro x name source whole
    exact ⟨fun finite => ⟨Number.display_plain finite, Number.lexemes_display finite name⟩,
      fun special => Number.lexemes_display_special special name⟩
  · intro ctx parse text node x parseSpan textSpan inner outer parses prints allowed value
    have written : (eval (.group .list [.leaf (.symbol ⟨"str"⟩) textSpan, node] inner)
        (ctx.inside parseSpan)).1 = .ok (.string (Value.number x).text) :=
      eval_concat (by simp only [Context.inside]; omega) prints value
    rw [Value.text_number] at written
    exact eval_parseNumber (by omega) parses written (Number.read?_display_self x)

open Eval in
theorem printed_numbers_read_back_small :
    let small : Float := 1.5e-7
    let undefined := Number.nan
    let source := Source.ofText "0.00000015" none
    let here : Span := .emptyAt source 0
    let symbol (name : String) : Node := .leaf (.symbol ⟨name⟩) here
    let ctx := Context.fresh 2 false
    let node : Node := .leaf (.number undefined) here
    let call : Node :=
      .group .list [symbol "parse-num", .group .list [symbol "str", node] here] here
    (small.isFinite ∧ undefined.isFinite = false ∧
      ctx.lookup ⟨"parse-num"⟩ = some (.builtin ⟨"parse-num"⟩ .parseNumber) ∧
      ctx.lookup ⟨"str"⟩ = some (.builtin ⟨"str"⟩ .concat) ∧ ctx.depth + 2 ≤ ctx.maxDepth ∧
      ((eval node).run ((ctx.inside here).inside here)).1 = .ok (.number undefined)) ∧
    Number.display small = "0.00000015" ∧ Number.display undefined = "NaN" ∧
    Number.read? "0.00000015".toList = some small ∧
    source.lexemes = [.ok ⟨.atom (.number small), ⟨0, 10, source⟩⟩] ∧
    (Source.ofText "NaN" none).lexemes =
      [.ok ⟨.atom (.symbol ⟨"NaN"⟩), ⟨0, 3, Source.ofText "NaN" none⟩⟩] ∧
    ((eval call).run ctx).1 = .ok (.number undefined) := by
  intro small undefined source here symbol ctx node call
  have finite : small.isFinite := by decide +kernel
  have special : undefined.isFinite = false := by decide +kernel
  have written : Number.display small = "0.00000015" := by decide +kernel
  have written' : Number.display undefined = "NaN" := by decide +kernel
  obtain ⟨reads, lexes, parses⟩ := printed_numbers_read_back
  have read := reads small
  have lexed := ((lexes small none).1 finite).2
  have lexed' := (lexes undefined none).2 special
  rw [written] at read lexed
  rw [written'] at lexed'
  refine ⟨⟨finite, special, rfl, rfl, by decide, rfl⟩, written, written', read, lexed, lexed', ?_⟩
  exact parses ctx _ _ node undefined here here here here rfl rfl (by decide) rfl

end Lisplet

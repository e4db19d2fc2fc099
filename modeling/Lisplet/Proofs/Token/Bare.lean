import Lisplet.Proofs.Node.Named
import Lisplet.Proofs.Token.Taking

/-!
Bare words. What starts like no bracket, comment or quoted literal is read as far as it is
unbroken, and the whole word decides what it is: a number or a fault if it starts like a number,
else a keyword, one of three literals, or a symbol.
-/

namespace Lisplet

/-- A lexeme that covers a span. -/
def Token.covering (span : Span) : Except LexFault Kind → Except LexError Token
  | .ok kind => .ok ⟨kind, span⟩
  | .error fault => .error ⟨fault, span⟩

theorem Token.covering_injective (span : Span) : Function.Injective (covering span) := by
  intro a b same
  cases a <;> cases b <;> simp_all [covering]

namespace Scan

/-- The word starts with a digit, or with a sign directly before one. -/
inductive Numeric : List Char → Prop where
  | digit {d w} : d.isDigit → Numeric (d :: w)
  | signed {sign d w} : sign = '+' ∨ sign = '-' → d.isDigit → Numeric (sign :: d :: w)

/-- What a word is: the kind of its token, or the fault of one that is not the number that it
starts like. -/
inductive Classified : List Char → Except LexFault Token.Kind → Prop where
  | number {w x} : Numeric w → Number.read? w = some x → Classified w (.ok (.atom (.number x)))
  | invalid {w} : Numeric w → Number.read? w = none →
      Classified w (.error (.invalidNumber (String.ofList w)))
  | keyword {name} : Classified (':' :: name) (.ok (.atom (.keyword ⟨String.ofList name⟩)))
  | literal {w a} : (String.ofList w, a) ∈ literals → Classified w (.ok (.atom a))
  | symbol {w} : ¬ Numeric w → w.head? ≠ some ':' → String.ofList w ∉ literals.map Prod.fst →
      Classified w (.ok (.atom (.symbol ⟨String.ofList w⟩)))

variable {x : Char} {cs rest w : List Char} {found : Except LexFault Token.Kind}

theorem startsNumber_iff : startsNumber x cs ↔ Numeric (x :: cs) := by
  constructor
  · intro starts
    simp only [startsNumber, Bool.or_eq_true, Bool.and_eq_true, decide_eq_true_eq] at starts
    rcases starts with digit | ⟨sign, digit⟩
    · exact .digit digit
    · obtain ⟨d, first, digit⟩ := (Option.any_eq_true _ _).mp digit
      obtain ⟨w, rfl⟩ := List.head?_eq_some_iff.mp first
      exact .signed sign digit
  · rintro (digit | ⟨sign, digit⟩)
    · simp [startsNumber, digit]
    · simp [startsNumber, sign, digit]

theorem Numeric.ne_colon (numeric : Numeric (x :: cs)) : x ≠ ':' := by
  rintro rfl
  cases numeric with
  | digit digit => cases digit
  | signed sign _ => simp at sign

theorem literal_start {a : Atom} (literal : (String.ofList (x :: cs), a) ∈ literals) :
    x ≠ ':' ∧ ¬ Numeric (x :: cs) := by
  have written {word : String} (same : String.ofList (x :: cs) = word) : word.toList = x :: cs := by
    rw [← same, String.toList_ofList]
  simp only [literals, List.mem_cons, Prod.mk.injEq, List.not_mem_nil, or_false] at literal
  rcases literal with ⟨same, -⟩ | ⟨same, -⟩ | ⟨same, -⟩
  all_goals
    cases written same
    exact ⟨by decide, mt startsNumber_iff.mpr (by decide)⟩

/-- What a word is classified as, with its length. -/
def ofWord (length : Nat) : Except LexFault Token.Kind → Scan
  | .ok kind => token kind length
  | .error f => fault f 0 length length

/-- A word that does not start like a quoted literal is scanned as what it is. -/
theorem scan_bare (unbroken : Unbroken (x :: cs)) (unquoted : x ≠ '"' ∧ x ≠ '\x27')
    (ends : WordEnd rest) (classified : Classified (x :: cs) found) :
    scan x (cs ++ rest) = ofWord (cs.length + 1) found := by
  by_cases colon : x = ':'
  · subst colon
    obtain ⟨-, others⟩ := List.forall_mem_cons.mp unbroken
    cases classified with
    | number numeric _ | invalid numeric _ => exact absurd rfl numeric.ne_colon
    | keyword =>
      show keyword _ = _
      simp [keyword, word_append others ends, ofWord]
    | literal literal => exact absurd rfl (literal_start literal).1
    | symbol _ other _ => simp at other
  · rw [scan_word unbroken ⟨colon, unquoted⟩ ends]
    cases classified with
    | number numeric known => simp [startsNumber_iff.mpr numeric, number, known, ofWord]
    | invalid numeric unknown => simp [startsNumber_iff.mpr numeric, number, unknown, ofWord]
    | keyword => exact absurd rfl colon
    | literal literal =>
      rw [if_neg (mt startsNumber_iff.mp (literal_start literal).2), symbol,
        wordAtom_of_literal literal]
      rfl
    | symbol other _ literal =>
      have word := wordAtom_eq_symbol_iff.mpr ⟨rfl, literal⟩
      rw [if_neg (mt startsNumber_iff.mp other), symbol, word]
      rfl

/-- Every word is classified. -/
theorem exists_classified (w : List Char) : ∃ found, Classified w found := by
  by_cases numeric : Numeric w
  · cases known : Number.read? w with
    | some y => exact ⟨_, .number numeric known⟩
    | none => exact ⟨_, .invalid numeric known⟩
  by_cases colon : w.head? = some ':'
  · obtain ⟨name, rfl⟩ := List.head?_eq_some_iff.mp colon
    exact ⟨_, .keyword⟩
  by_cases literal : String.ofList w ∈ literals.map Prod.fst
  · obtain ⟨⟨_, a⟩, member, rfl⟩ := List.mem_map.mp literal
    exact ⟨_, .literal member⟩
  · exact ⟨_, .symbol numeric colon literal⟩

/-- The name of a symbol: a word that starts like nothing else and is no literal. -/
structure SymbolWord (w : List Char) : Prop where
  nonempty : w ≠ []
  unbroken : Unbroken w
  start : ∀ x ∈ w.head?, x ≠ ':' ∧ x ≠ '"' ∧ x ≠ '\x27'
  numeric : ¬ Numeric w
  literal : String.ofList w ∉ literals.map Prod.fst

theorem SymbolWord.classified (symbol : SymbolWord w) :
    Classified w (.ok (.atom (.symbol ⟨String.ofList w⟩))) :=
  .symbol symbol.numeric (fun colon => (symbol.start ':' colon).1 rfl) symbol.literal

end Scan

namespace Cursor

open Scan (Unbroken WordEnd Classified SymbolWord)

variable {c after : Cursor} {x : Char} {w rest : List Char} {span : Span}

theorem solid_of_ahead (ahead : c.skipGaps.rest = x :: rest) : Scan.isGap x = false := by
  rw [rest_skipGaps] at ahead
  exact Scan.isGap_of_dropWhile ahead

/-- A read that stands on a bare word takes it and finds what the word is. -/
theorem read_bare {found : Except LexFault Token.Kind} (ahead : c.skipGaps.rest = w ++ rest)
    (nonempty : w ≠ []) (unquoted : ∀ x ∈ w.head?, x ≠ '"' ∧ x ≠ '\x27') (unbroken : Unbroken w)
    (ends : WordEnd rest) (classified : Classified w found) :
    c.read = (some (Token.covering
        ⟨c.skipGaps.offset, c.skipGaps.offset + w.length, c.source⟩ found),
      c.skipGaps.move w.length) := by
  obtain ⟨x, cs, rfl⟩ := List.exists_cons_of_ne_nil nonempty
  rw [List.cons_append] at ahead
  rw [read_of_ahead ahead, Scan.scan_bare unbroken (unquoted x rfl) ends classified]
  cases found <;> rfl

theorem skipGaps_of_solid (ahead : c.rest = x :: rest) (solid : Scan.isGap x = false) :
    c.skipGaps = c.move 0 := by
  rw [skipGaps, ahead, List.takeWhile_cons_of_neg (by simp [solid])]
  rfl

/-- A text that is one bare word is lexed as what the word is. -/
theorem lexemes_bare {text : String} (written : text.toList = x :: rest)
    (unquoted : x ≠ '"' ∧ x ≠ '\x27') (unbroken : Unbroken (x :: rest))
    {found : Except LexFault Token.Kind} (classified : Classified (x :: rest) found)
    (name : Option String) :
    let source := Source.ofText text name
    source.lexemes = [Token.covering ⟨0, text.toList.length, source⟩ found] := by
  intro source
  have chars : (atStart source).rest = x :: rest := written
  have here := skipGaps_of_solid chars (Scan.isGap_of_unbroken unbroken)
  have start : (atStart source).skipGaps.offset = 0 := by
    rw [here]
    rfl
  have ahead : (atStart source).skipGaps.rest = x :: rest ++ [] := by
    rw [here, List.append_nil]
    exact chars
  have read := read_bare ahead (List.cons_ne_nil _ _) (by simpa using unquoted) unbroken
    Scan.wordEnd_nil classified
  have ended := rest_skipGaps ((atStart source).skipGaps.move (x :: rest).length)
  rw [rest_move ahead] at ended
  rw [Source.lexemes, lexemes_of_some read, lexemes_of_none (read_of_end ended), start,
    Nat.zero_add, written]
  rfl

theorem lexed_of_symbolWord (symbol : SymbolWord w) : Symbol.Lexed ⟨String.ofList w⟩ := by
  obtain ⟨x, cs, rfl⟩ := List.exists_cons_of_ne_nil symbol.nonempty
  exact ⟨_, lexemes_bare String.toList_ofList (symbol.start x rfl).2 symbol.unbroken
    symbol.classified none⟩

/-- A symbol is read from a word of its own. -/
theorem symbolWord_of_read {s : Symbol}
    (read : c.read = (some (.ok ⟨.atom (.symbol s), span⟩), after)) :
    SymbolWord s.name.toList := by
  obtain ⟨x, cs, takes, scanned⟩ := read_token_iff.mp read
  obtain ⟨bracket, comment, plain, digits, word⟩ := Scan.scan_symbol (by rw [scanned]; rfl)
  obtain ⟨rfl, literal⟩ := Scan.wordAtom_eq_symbol_iff.mp word
  have unbroken := Scan.unbroken_cons (solid_of_ahead takes.ahead) bracket comment
    (Scan.unbroken_word (cs ++ after.rest))
  rw [← Scan.startsNumber_word] at digits
  rw [String.toList_ofList]
  constructor
  · simp
  · exact unbroken
  · simpa using plain
  · exact mt Scan.startsNumber_iff.mpr (by simp [digits])
  · exact literal

/-- Bare words are taken whole and classified exactly. A read that stands on no bracket, comment or
quoted literal takes the longest unbroken word there and finds what the word is classified as,
a token or a fault over all of the word. What is read as a symbol anywhere is a word that starts
like nothing else and is no literal, and every such word is read as the symbol of its name. -/
theorem bare_words_classified :
    (∀ (c : Cursor) (x : Char) (rest : List Char), c.skipGaps.rest = x :: rest →
      x ∉ ['(', ')', '[', ']', ';', '"', '\x27'] →
      ∃ w span after, c.Takes w span after ∧ w ≠ [] ∧ Unbroken w ∧ WordEnd after.rest ∧
        (∃ found, Classified w found) ∧
        ∀ found, Classified w found ↔ c.read = (some (Token.covering span found), after)) ∧
    (∀ (c : Cursor) s span after, c.read = (some (.ok ⟨.atom (.symbol s), span⟩), after) →
      SymbolWord s.name.toList) ∧
    ∀ w, SymbolWord w → Symbol.Lexed ⟨String.ofList w⟩ ∧
      ∀ (c : Cursor) (rest : List Char), c.skipGaps.rest = w ++ rest → WordEnd rest →
        ∃ span after, c.Takes w span after ∧
          c.read = (some (.ok ⟨.atom (.symbol ⟨String.ofList w⟩), span⟩), after) := by
  refine ⟨?_, fun c s span after => symbolWord_of_read, ?_⟩
  · intro c x rest ahead other
    simp only [List.mem_cons, List.not_mem_nil, or_false, not_or] at other
    obtain ⟨list, listEnd, vector, vectorEnd, comment, quotes, quote⟩ := other
    have bracket : Scan.bracket? x = none := by
      unfold Scan.bracket?
      split <;> first | rfl | contradiction
    have unbroken := Scan.unbroken_cons (solid_of_ahead ahead) bracket comment
      (Scan.unbroken_word rest)
    obtain ⟨behind, whole, ends⟩ := Scan.exists_word rest
    have ahead : c.skipGaps.rest = x :: Scan.word rest ++ behind := by
      rw [ahead, List.cons_append, ← whole]
    have read {found : Except LexFault Token.Kind} (classified : Classified _ found) :=
      read_bare ahead (List.cons_ne_nil _ _) (by simp [quotes, quote]) unbroken ends classified
    obtain ⟨found, classified⟩ := Scan.exists_classified (x :: Scan.word rest)
    refine ⟨_, _, _, takes_move ahead, List.cons_ne_nil _ _, unbroken, ?_, ⟨found, classified⟩,
      fun found' => ⟨read, fun same => ?_⟩⟩
    · rwa [rest_move ahead]
    · rw [read classified] at same
      obtain rfl := Token.covering_injective _ (Option.some.inj (Prod.mk.inj same).1)
      exact classified
  · intro w symbol
    refine ⟨lexed_of_symbolWord symbol, fun c rest ahead ends => ?_⟩
    exact ⟨_, _, takes_move ahead, read_bare ahead symbol.nonempty
      (fun x first => (symbol.start x first).2) symbol.unbroken ends symbol.classified⟩

theorem bare_words_classified_signed :
    let numeric := atStart (.ofText ",-1\u0663x)" none)
    let symbol := atStart (.ofText "+x" none)
    (numeric.skipGaps.rest = '-' :: ['1', '\u0663', 'x', ')'] ∧
      '-' ∉ ['(', ')', '[', ']', ';', '"', '\x27'] ∧
      (∃ w span after found, numeric.Takes w span after ∧ Unbroken w ∧ WordEnd after.rest ∧
        Classified w found ∧ numeric.read = (some (Token.covering span found), after)) ∧
      numeric.read.1 =
        some (.error ⟨.invalidNumber "-1\u0663x", ⟨1, 5, numeric.source⟩⟩)) ∧
    SymbolWord ['+', 'x'] ∧ symbol.skipGaps.rest = ['+', 'x'] ++ [] ∧ WordEnd [] ∧
      ∃ span after, symbol.Takes ['+', 'x'] span after ∧
        symbol.read = (some (.ok ⟨.atom (.symbol ⟨"+x"⟩), span⟩), after) ∧
        SymbolWord (Symbol.mk "+x").name.toList := by
  intro numeric symbol
  obtain ⟨classifies, names, reads⟩ := bare_words_classified
  have plain : SymbolWord ['+', 'x'] := by
    constructor
    · simp
    · decide
    · simp
    · exact mt Scan.startsNumber_iff.mpr (by decide)
    · decide
  obtain ⟨w, span, after, takes, -, unbroken, ends, ⟨found, classified⟩, read⟩ :=
    classifies numeric '-' ['1', '\u0663', 'x', ')'] rfl (by decide)
  obtain ⟨span', after', takes', read'⟩ := (reads _ plain).2 symbol [] rfl Scan.wordEnd_nil
  refine ⟨⟨rfl, by decide, ?_, by decide +kernel⟩, plain, rfl, Scan.wordEnd_nil, ?_⟩
  · exact ⟨w, span, after, found, takes, unbroken, ends, classified, (read found).mp classified⟩
  · exact ⟨span', after', takes', read', names symbol _ _ _ read'⟩

end Cursor
end Lisplet

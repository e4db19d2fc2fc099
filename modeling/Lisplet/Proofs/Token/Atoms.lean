import Lisplet.Proofs.Number.ReadBack
import Lisplet.Proofs.Token.Quotes
import Lisplet.Value.Equality
import Mathlib.Data.List.TakeWhile

/-!
Which atoms read back. A legible atom is read as itself before every end of a word; from one that
is not legible no atom equal to it is read.
-/

namespace Lisplet

/-- The reader takes the whole name for the symbol. -/
def Symbol.Lexed (s : Symbol) : Prop :=
  ∃ span, (Source.ofText s.name none).lexemes = [.ok ⟨.atom (.symbol s), span⟩]

/-- A name is lexed if nothing but the symbol is read from it. -/
theorem Symbol.lexed_iff {s : Symbol} :
    s.Lexed ↔ Scan.kinds s.name.toList = [.ok (.atom (.symbol s))] := by
  have kinds := Source.lexemes_kinds (Source.ofText s.name none)
  constructor
  · rintro ⟨span, read⟩
    rw [read] at kinds
    exact kinds.symm
  · intro read
    obtain ⟨lexeme, none, same, outcome, ended⟩ :=
      List.map_eq_cons_iff.mp (kinds.trans read)
    obtain rfl := List.map_eq_nil_iff.mp ended
    cases lexeme with
    | error e => cases outcome
    | ok t =>
      obtain ⟨kind, span⟩ := t
      cases outcome
      exact ⟨span, same⟩

namespace Scan

variable {c : Char} {cs rest : List Char} {s : Symbol}

theorem name_of_wordAtom {w : String} (symbol : wordAtom w = .symbol s) : s.name = w := by
  rw [(wordAtom_eq_symbol_iff.mp symbol).1]

/-- All that is read as a symbol is a word that starts like nothing else. -/
theorem scan_symbol (read : (scan c rest).outcome = .ok (.atom (.symbol s))) :
    bracket? c = none ∧ c ≠ ';' ∧ (c ≠ ':' ∧ c ≠ '"' ∧ c ≠ '\x27') ∧
      startsNumber c rest = false ∧ wordAtom (String.ofList (c :: word rest)) = .symbol s := by
  have reading := reading c rest
  generalize scan c rest = found at read reading
  cases reading with
  | bracket bracket =>
    cases read
    unfold bracket? at bracket
    split at bracket <;> cases bracket
  | comment _ | keyword _ => cases read
  | number _ _ =>
    obtain ⟨_, impossible⟩ := number_outcome read
    cases impossible
  | string _ =>
    obtain ⟨_, impossible, -⟩ := string_outcome read
    cases impossible
  | char _ =>
    obtain ⟨_, impossible⟩ := char_outcome read
    cases impossible
  | symbol bracket comment plain digits =>
    exact ⟨bracket, comment, plain, digits, Token.Kind.atom.inj (Except.ok.inj read)⟩

theorem unbroken_of_word (whole : word cs = cs) : Unbroken cs := by
  intro c member
  simpa using List.takeWhile_eq_self_iff.mp whole c member

theorem unbroken_cons (solid : isGap c = false) (bracket : bracket? c = none) (comment : c ≠ ';')
    (unbroken : Unbroken cs) : Unbroken (c :: cs) := by
  refine List.forall_mem_cons.mpr ⟨?_, unbroken⟩
  simp only [isSeparator, solid, Bool.false_or, Bool.or_eq_false_iff, decide_eq_false_iff_not]
  refine ⟨⟨⟨⟨?_, ?_⟩, ?_⟩, ?_⟩, comment⟩
  all_goals
    rintro rfl
    cases bracket

/-- A text that is read as the symbol of its name is one word that starts like nothing else and is
no literal. -/
theorem exists_word_of_kinds (read : kinds s.name.toList = [.ok (.atom (.symbol s))]) :
    ∃ c cs, s.name.toList = c :: cs ∧ Unbroken (c :: cs) ∧
      (c ≠ ':' ∧ c ≠ '"' ∧ c ≠ '\x27') ∧ startsNumber c cs = false ∧
      wordAtom (String.ofList (c :: cs)) = .symbol s := by
  rw [← kinds_dropWhile] at read
  cases ahead : s.name.toList.dropWhile isGap with
  | nil =>
    rw [ahead, kinds] at read
    cases read
  | cons c tail =>
    have solid := isGap_of_dropWhile ahead
    rw [ahead, kinds_cons solid] at read
    obtain ⟨bracket, comment, plain, digits, symbol⟩ := scan_symbol (List.cons.inj read).1
    have named := congrArg String.toList (name_of_wordAtom symbol)
    rw [String.toList_ofList] at named
    -- The name starts with a character that is no gap, so nothing of it was passed over.
    rw [named, List.dropWhile_cons_of_neg (by simp [solid])] at ahead
    have whole := (List.cons.inj ahead).2
    rw [whole] at named symbol
    exact ⟨c, tail, named, unbroken_cons solid bracket comment (unbroken_of_word whole), plain,
      digits, symbol⟩

/-- A text that is read as the symbol of its name is read so before every end of a word. -/
theorem kinds_symbol (read : kinds s.name.toList = [.ok (.atom (.symbol s))])
    (ends : WordEnd rest) :
    kinds (s.name.toList ++ rest) = .ok (.atom (.symbol s)) :: kinds rest := by
  obtain ⟨c, cs, written, unbroken, plain, digits, symbol⟩ := exists_word_of_kinds read
  rw [written]
  refine kinds_word unbroken plain ends ?_
  rw [if_neg (by simp [digits]), Scan.symbol, symbol]
  rfl

end Scan

namespace Number

theorem plain_of_numeral {cs : List Char} {d : Decimal} (numeral : Numeral cs d) :
    ∀ c ∈ cs, c.isDigit ∨ c = '.' := by
  cases numeral with
  | whole _ digits => exact fun c member => .inl (digits c member)
  | point _ digits digits' =>
    rw [List.forall_mem_append, List.forall_mem_cons]
    exact ⟨fun c member => .inl (digits c member), .inr rfl, fun c member => .inl (digits' c member)⟩

theorem unbroken_numeral {cs : List Char} {d : Decimal} (numeral : Numeral cs d) :
    Scan.Unbroken cs := by
  intro c member
  rcases plain_of_numeral numeral c member with digit | rfl
  · refine Bool.eq_false_iff.mpr fun separator => ?_
    have none := Scan.isDigit_of_isSeparator separator
    rw [digit] at none
    cases none
  · rfl

theorem ne_of_isDigit {c d : Char} (digit : c.isDigit) (other : d.isDigit = false) : c ≠ d := by
  rintro rfl
  rw [digit] at other
  cases other

/-- A finite number is written as one word that starts like a number. -/
theorem display_word {x : Float} (finite : x.isFinite) :
    ∃ c cs, (display x).toList = c :: cs ∧ Scan.Unbroken (c :: cs) ∧
      (c ≠ ':' ∧ c ≠ '"' ∧ c ≠ '\x27') ∧ Scan.startsNumber c cs := by
  obtain ⟨negative, text, d, written, numeral, -⟩ := display_finite finite
  obtain ⟨c, cs, rfl, digit⟩ := head_of_numeral numeral
  have unbroken := unbroken_numeral numeral
  rw [written, signed, String.toList_ofList]
  cases negative with
  | true =>
    refine ⟨'-', c :: cs, rfl, List.forall_mem_cons.mpr ⟨rfl, unbroken⟩, by decide, ?_⟩
    simp [Scan.startsNumber, digit]
  | false =>
    refine ⟨c, cs, rfl, unbroken, ⟨?_, ?_, ?_⟩, by simp [Scan.startsNumber, digit]⟩
    · exact ne_of_isDigit digit rfl
    · exact ne_of_isDigit digit rfl
    · exact ne_of_isDigit digit rfl

/-- A number that is not finite is written as a word that is read as a symbol. -/
theorem display_symbol {x : Float} (infinite : x.isFinite = false) :
    ∃ c cs, (display x).toList = c :: cs ∧ Scan.Unbroken (c :: cs) ∧
      (c ≠ ':' ∧ c ≠ '"' ∧ c ≠ '\x27') ∧ Scan.startsNumber c cs = false ∧
      Scan.wordAtom (String.ofList (c :: cs)) = .symbol ⟨String.ofList (c :: cs)⟩ := by
  change x.toModel.unpack.isFinite = false at infinite
  cases unpacked : x.toModel.unpack with
  | zero | finite =>
    rw [unpacked] at infinite
    cases infinite
  | notANumber =>
    refine ⟨'N', ['a', 'N'], ?_, by decide, by decide, rfl, by decide⟩
    simp [display, Binary.ofFloat, unpacked]
  | infinity s =>
    simp only [display, Binary.ofFloat, unpacked, signed, String.toList_ofList]
    cases s with
    | positive =>
      refine ⟨'i', ['n', 'f'], rfl, by decide, by decide, rfl, by decide⟩
    | negative =>
      refine ⟨'-', ['i', 'n', 'f'], rfl, by decide, by decide, rfl,
        by decide⟩

end Number

namespace Atom

/-- What the display form tells. It loses the numbers that are not finite, and it writes a
backslash, and an apostrophe as a character, as they are. -/
def Legible : Atom → Prop
  | number x => x.isFinite
  | string s => '\\' ∉ s.toList
  | char c => c ≠ '\x27' ∧ c ≠ '\\'
  | _ => True

/-- Symbols and keywords have names that a text can write. -/
def Named : Atom → Prop
  | symbol s => s.Lexed
  | keyword k => Scan.Unbroken k.name.toList
  | _ => True

variable {a : Atom} {rest : List Char}

theorem kinds_display (named : a.Named) (legible : a.Legible) (ends : Scan.WordEnd rest) :
    Scan.kinds (a.display.toList ++ rest) = .ok (.atom a) :: Scan.kinds rest := by
  cases a with
  | number x =>
    obtain ⟨c, cs, written, unbroken, plain, digits⟩ := Number.display_word legible
    have read := Number.read?_display legible
    rw [written] at read
    rw [display, written]
    refine Scan.kinds_word unbroken plain ends ?_
    rw [if_pos digits, Scan.number, read]
    rfl
  | bool b =>
    cases b
    · exact @Scan.kinds_word 'f' ['a', 'l', 's', 'e'] rest _ (by decide) (by decide) ends rfl
    · exact @Scan.kinds_word 't' ['r', 'u', 'e'] rest _ (by decide) (by decide) ends rfl
  | string s => exact Scan.kinds_string legible ends
  | char c =>
    rw [display, String.toList_ofList]
    exact Scan.kinds_char legible.1 legible.2 rest
  | symbol s => exact Scan.kinds_symbol (Symbol.lexed_iff.mp named) ends
  | keyword k =>
    rw [display, Keyword.display, String.toList_append]
    have read := Scan.kinds_keyword named ends
    rwa [String.ofList_toList] at read
  | nil => exact @Scan.kinds_word 'n' ['i', 'l'] rest _ (by decide) (by decide) ends rfl

/-- What stands in the place of an atom that is not legible is a fault or another atom. -/
theorem kinds_display_illegible (illegible : ¬ a.Legible) (ends : Scan.WordEnd rest) :
    ∃ found others, Scan.kinds (a.display.toList ++ rest) = found :: others ∧
      ∀ kind, found = .ok kind → ∃ b, kind = .atom b ∧ b.isEqual a = false := by
  cases a with
  | number x =>
    obtain ⟨c, cs, written, unbroken, plain, digits, symbol⟩ :=
      Number.display_symbol (Bool.eq_false_iff.mpr illegible)
    rw [display, written]
    refine ⟨_, _, Scan.kinds_word unbroken plain ends (if_neg (by simp [digits])), ?_⟩
    intro kind found
    cases found
    rw [symbol]
    exact ⟨_, rfl, rfl⟩
  | string s =>
    have backslash : '\\' ∈ s.toList := Decidable.not_not.mp illegible
    rw [display, toList_displayString, List.cons_append, Scan.kinds_cons rfl]
    refine ⟨_, _, rfl, ?_⟩
    intro kind found
    rw [List.append_assoc] at found
    obtain ⟨t, rfl, other⟩ := Scan.string_of_backslash backslash found
    exact ⟨_, rfl, by simp [isEqual, other]⟩
  | char c =>
    have special : c = '\x27' ∨ c = '\\' := by
      by_cases quote : c = '\x27'
      · exact .inl quote
      · exact .inr (Decidable.not_not.mp fun other => illegible ⟨quote, other⟩)
    rw [display, String.toList_ofList, List.cons_append, Scan.kinds_cons rfl]
    refine ⟨_, _, rfl, ?_⟩
    intro kind found
    rcases special with rfl | rfl <;> cases found
  | bool | symbol | keyword | nil => exact absurd trivial illegible

end Atom
end Lisplet

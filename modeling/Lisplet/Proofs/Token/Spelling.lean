import Lisplet.Proofs.Token.Taking
import Lisplet.Proofs.Token.Row

/-!
What is written between quotes. A string is spelled character by character, each standing for
itself or written as an escape, and a character literal is spelled by one such character. The
spelling settles what is read: the text as far as it is spelled, and then the quote that closes
it, or what is wrong behind it.
-/

namespace Lisplet

/-- What may stand behind a backslash, and the character that it makes with it. -/
inductive Escape : Char → Char → Prop where
  | quote : Escape '"' '"'
  | backslash : Escape '\\' '\\'
  | newline : Escape 'n' '\n'
  | control : Escape 'e' '\x1b'

/-- A text between double quotes, and the characters that it writes. -/
inductive Spelling : List Char → List Char → Prop where
  | nil : Spelling [] []
  | plain {c text s} : c ≠ '"' → c ≠ '\\' → Spelling text s → Spelling (c :: text) (c :: s)
  | escaped {e c text s} : Escape e c → Spelling text s → Spelling ('\\' :: e :: text) (c :: s)

/-- A text between apostrophes, and the one character that it writes. -/
inductive Spelling.Single : List Char → Char → Prop where
  | plain {c} : c ≠ '\x27' → c ≠ '\\' → Single [c] c
  | escaped {e c} : Escape e c → Single ['\\', e] c

theorem Spelling.Single.ne_apostrophe {inner : List Char} {c : Char}
    (single : Spelling.Single inner c) : c ≠ '\x27' := by
  cases single with
  | plain apostrophe _ => exact apostrophe
  | escaped known => cases known <;> decide

namespace Scan

variable {e x : Char} {cs rest inner s : List Char} {length : Nat}

theorem unescape?_eq_some_iff {c : Char} : unescape? e = some c ↔ Escape e c := by
  constructor
  · intro known
    unfold unescape? at known
    split at known <;> cases known
    · exact .quote
    · exact .backslash
    · exact .newline
    · exact .control
  · rintro (_ | _ | _ | _) <;> rfl

theorem unescape?_eq_none (unknown : ∀ c, ¬ Escape e c) : unescape? e = none :=
  Option.eq_none_iff_forall_ne_some.mpr fun c known => unknown c (unescape?_eq_some_iff.mp known)

/-- The same body behind `count` more characters that write `s`. -/
def Body.behind (s : List Char) (count : Nat) : Body → Body
  | closed text length => closed (s ++ text) (length + count)
  | badEscape c start => badEscape c (start + count)
  | unclosed => unclosed

theorem body_spelling (spelling : Spelling inner s) (rest : List Char) :
    body (inner ++ rest) = (body rest).behind s inner.length := by
  have after (c : Char) (count n : Nat) (s : List Char) (b : Body) :
      (b.behind s n).after c count = b.behind (c :: s) (n + count) := by
    cases b <;> simp [Body.behind, Body.after, Nat.add_assoc]
  induction spelling with
  | nil =>
    rw [List.nil_append]
    cases body rest <;> rfl
  | plain quote backslash _ ih =>
    rw [List.cons_append, body_plain _ quote backslash, ih, after]
    rfl
  | escaped known _ ih =>
    rw [List.cons_append, List.cons_append, body_escaped _ (unescape?_eq_some_iff.mpr known), ih,
      after]
    rfl

/-- Where a spelling cannot go on. -/
inductive Halt : List Char → Prop where
  | quote (rest : List Char) : Halt ('"' :: rest)
  | unknown {e : Char} (rest : List Char) : (∀ c, ¬ Escape e c) → Halt ('\\' :: e :: rest)
  | ended : Halt []
  | backslash : Halt ['\\']

/-- Every text is spelled as far as it can be. -/
theorem exists_spelling (cs : List Char) :
    ∃ inner s rest, cs = inner ++ rest ∧ Spelling inner s ∧ Halt rest := by
  fun_induction body cs with
  | case1 => exact ⟨[], [], [], rfl, .nil, .ended⟩
  | case2 rest => exact ⟨[], [], _, rfl, .nil, .quote rest⟩
  | case3 => exact ⟨[], [], _, rfl, .nil, .backslash⟩
  | case4 e rest c known ih =>
    obtain ⟨inner, s, behind, rfl, spelling, halt⟩ := ih
    exact ⟨_, _, behind, rfl, .escaped (unescape?_eq_some_iff.mp known) spelling, halt⟩
  | case5 e rest unknown =>
    refine ⟨[], [], _, rfl, .nil, .unknown rest fun c known => ?_⟩
    rw [unescape?_eq_some_iff.mpr known] at unknown
    cases unknown
  | case6 c rest quote last escape ih =>
    have backslash : c ≠ '\\' := by
      rintro rfl
      cases rest with
      | nil => exact last rfl rfl
      | cons d rest => exact escape d rest rfl rfl
    obtain ⟨inner, s, behind, rfl, spelling, halt⟩ := ih
    exact ⟨_, _, behind, rfl, .plain quote backslash spelling, halt⟩

/-! What is read of a text that is spelled, by what stands behind the spelling. -/

theorem string_closed (spelling : Spelling inner s) (rest : List Char) :
    string (inner ++ '"' :: rest) =
      if (word rest).isEmpty then token (.atom (.string (String.ofList s))) (inner.length + 2)
      else fault .invalidString 0 (inner.length + 2 + (word rest).length)
        (inner.length + 2 + (word rest).length) := by
  have behind : (inner ++ '"' :: rest).drop (inner.length + 1) = rest := by simp
  simp only [string, body_spelling spelling, body, Body.behind, List.append_nil, Nat.zero_add,
    behind]
  split
  · rename_i none
    rw [List.isEmpty_iff.mp none]
    rfl
  · rfl

theorem string_unknown (spelling : Spelling inner s) (unknown : ∀ c, ¬ Escape e c)
    (rest : List Char) :
    string (inner ++ '\\' :: e :: rest) =
      fault (.invalidEscape e.toString) (inner.length + 1) (inner.length + 3)
        (inner.length + 3) := by
  simp [string, body_spelling spelling, body, Body.behind, unescape?_eq_none unknown]

theorem string_ended (spelling : Spelling inner s) (ended : rest = [] ∨ rest = ['\\']) :
    string (inner ++ rest) = fault .unclosedString 0 1 ((inner ++ rest).length + 1) := by
  have unclosed : body rest = .unclosed := by
    rcases ended with rfl | rfl <;> rfl
  simp only [string, body_spelling spelling, unclosed, Body.behind]

/-- A string is read from a spelling of it that is closed in front of the end of a word. -/
theorem string_eq_token_iff {kind : Token.Kind} :
    string cs = token kind length ↔
      ∃ inner s rest, cs = inner ++ '"' :: rest ∧ Spelling inner s ∧ WordEnd rest ∧
        kind = .atom (.string (String.ofList s)) ∧ length = inner.length + 2 := by
  constructor
  · intro read
    obtain ⟨inner, s, rest, rfl, spelling, halt⟩ := exists_spelling cs
    cases halt with
    | quote rest =>
      rw [string_closed spelling] at read
      split at read
      · rename_i none
        cases read
        exact ⟨inner, s, rest, rfl, spelling, wordEnd_of_word (List.isEmpty_iff.mp none), rfl, rfl⟩
      · cases read
    | unknown rest unknown =>
      rw [string_unknown spelling unknown] at read
      cases read
    | ended =>
      rw [string_ended spelling (.inl rfl)] at read
      cases read
    | backslash =>
      rw [string_ended spelling (.inr rfl)] at read
      cases read
  · rintro ⟨inner, s, rest, rfl, spelling, ends, rfl, rfl⟩
    simp [string_closed spelling, word_eq_nil ends]

/-- A character is read from its spelling before another apostrophe. -/
theorem char_eq_token_iff {kind : Token.Kind} :
    char cs = token kind length ↔
      ∃ inner c rest, cs = inner ++ '\x27' :: rest ∧ Spelling.Single inner c ∧
        kind = .atom (.char c) ∧ length = inner.length + 2 := by
  constructor
  · intro read
    unfold char at read
    split at read
    · cases read
    · cases read
    · split at read
      · rename_i known
        obtain ⟨rest, rfl, rfl, rfl⟩ := closeChar_eq_token read
        exact ⟨_, _, rest, rfl, .escaped (unescape?_eq_some_iff.mp known), rfl, rfl⟩
      · cases read
    · rename_i c rest last escape
      split at read
      · cases read
      · rename_i quote
        obtain ⟨rest, rfl, rfl, rfl⟩ := closeChar_eq_token read
        have backslash : c ≠ '\\' := fun same => escape '\x27' rest same rfl
        exact ⟨[c], c, rest, rfl, .plain quote backslash, rfl, rfl⟩
  · rintro ⟨inner, c, rest, rfl, single, rfl, rfl⟩
    cases single with
    | plain quote backslash => simp [char_plain backslash, quote, closeChar]
    | escaped known => simp [char, unescape?_eq_some_iff.mpr known, closeChar]

/-- The quotes of a literal are the first that is read of it. -/
theorem quote_of_literal {a : Atom} (read : (scan x rest).outcome = .ok (.atom a)) :
    (∀ text, a = .string text → x = '"') ∧ ∀ c, a = .char c → x = '\x27' := by
  have reading := reading x rest
  generalize scan x rest = found at read reading
  cases reading with
  | bracket bracket =>
    cases read
    unfold bracket? at bracket
    split at bracket <;> cases bracket
  | string quotes =>
    obtain ⟨text, same, -⟩ := string_outcome read
    cases same
    simp [quotes]
  | char quote =>
    obtain ⟨c, same⟩ := char_outcome read
    cases same
    simp [quote]
  | number =>
    obtain ⟨y, same⟩ := number_outcome read
    cases same
    simp
  | comment => cases read
  | keyword =>
    cases read
    simp
  | symbol =>
    cases read
    rcases wordAtom_cases (String.ofList (x :: word rest)) with ⟨b, same⟩ | same | same
    all_goals
      rw [same]
      simp

end Scan

namespace Cursor

variable {c after : Cursor} {inner rest s : List Char} {span : Span}

/-- The characters of a literal, up to the quote that closes it. -/
theorem closed_of_append {x : Char} {cs behind : List Char}
    (same : cs ++ rest = inner ++ x :: behind) (length : cs.length + 1 = inner.length + 2) :
    cs = inner ++ [x] ∧ rest = behind := by
  rw [List.append_cons] at same
  exact List.append_inj same (by simp only [List.length_append, List.length_singleton]; omega)

theorem read_string_iff {text : String} :
    c.read = (some (.ok ⟨.atom (.string text), span⟩), after) ↔
      ∃ inner, c.Takes ('"' :: (inner ++ ['"'])) span after ∧ Spelling inner text.toList ∧
        Scan.WordEnd after.rest := by
  rw [read_token_iff]
  constructor
  · rintro ⟨x, cs, takes, scanned⟩
    obtain rfl := (Scan.quote_of_literal (by rw [scanned]; rfl)).1 text rfl
    obtain ⟨inner, s, rest, same, spelling, ends, kind, length⟩ :=
      Scan.string_eq_token_iff.mp scanned
    obtain ⟨rfl, rfl⟩ := closed_of_append same length
    cases kind
    exact ⟨inner, takes, by rwa [String.toList_ofList], ends⟩
  · rintro ⟨inner, takes, spelling, ends⟩
    refine ⟨'"', inner ++ ['"'], takes, Scan.string_eq_token_iff.mpr ?_⟩
    exact ⟨inner, text.toList, after.rest, by simp, spelling, ends, by simp, by simp⟩

theorem read_char_iff {x : Char} :
    c.read = (some (.ok ⟨.atom (.char x), span⟩), after) ↔
      ∃ inner, c.Takes ('\x27' :: (inner ++ ['\x27'])) span after ∧ Spelling.Single inner x := by
  rw [read_token_iff]
  constructor
  · rintro ⟨y, cs, takes, scanned⟩
    obtain rfl := (Scan.quote_of_literal (by rw [scanned]; rfl)).2 x rfl
    obtain ⟨inner, d, rest, same, spelling, kind, length⟩ := Scan.char_eq_token_iff.mp scanned
    obtain ⟨rfl, rfl⟩ := closed_of_append same length
    cases kind
    exact ⟨inner, takes, spelling⟩
  · rintro ⟨inner, takes, spelling⟩
    refine ⟨'\x27', inner ++ ['\x27'], takes, Scan.char_eq_token_iff.mpr ?_⟩
    exact ⟨inner, x, after.rest, by simp, spelling, rfl, by simp⟩

theorem read_unknown_escape {e : Char} (ahead : c.skipGaps.rest = '"' :: (inner ++ '\\' :: e :: rest))
    (spelling : Spelling inner s) (unknown : ∀ d, ¬ Escape e d) :
    ∃ span after, c.read = (some (.error ⟨.invalidEscape e.toString, span⟩), after) ∧
      span = ⟨c.skipGaps.offset + inner.length + 1, c.skipGaps.offset + inner.length + 3,
        c.source⟩ ∧
      span.text = String.ofList ['\\', e] := by
  have read := read_of_ahead ahead
  have scanned : Scan.scan '"' (inner ++ '\\' :: e :: rest) = _ :=
    Scan.string_unknown spelling unknown rest
  have shown : c.skipGaps.rest = '"' :: inner ++ (['\\', e] ++ rest) := by simp [ahead]
  rw [scanned] at read
  refine ⟨_, _, read, ?_, ?_⟩
  · rfl
  · exact text_eq shown

theorem read_unclosed (ahead : c.skipGaps.rest = '"' :: (inner ++ rest))
    (spelling : Spelling inner s) (ended : rest = [] ∨ rest = ['\\']) :
    ∃ span after, c.read = (some (.error ⟨.unclosedString, span⟩), after) ∧
      span = ⟨c.skipGaps.offset, c.skipGaps.offset + 1, c.source⟩ ∧ span.text = "\"" ∧
      after.rest = [] := by
  have read := read_of_ahead ahead
  have scanned : Scan.scan '"' (inner ++ rest) = _ := Scan.string_ended spelling ended
  rw [scanned] at read
  refine ⟨_, _, read, rfl, ?_, ?_⟩
  · exact @text_eq c.skipGaps [] ['"'] (inner ++ rest) ahead
  · exact @rest_move c ('"' :: (inner ++ rest)) [] (by simp [ahead])

theorem read_trailing {trailing : List Char}
    (ahead : c.skipGaps.rest = '"' :: (inner ++ '"' :: (trailing ++ rest)))
    (spelling : Spelling inner s) (more : trailing ≠ []) (unbroken : Scan.Unbroken trailing)
    (ends : Scan.WordEnd rest) :
    ∃ span after, c.read = (some (.error ⟨.invalidString, span⟩), after) ∧
      c.Takes ('"' :: (inner ++ '"' :: trailing)) span after := by
  have read := read_of_ahead ahead
  have scanned : Scan.scan '"' (inner ++ '"' :: (trailing ++ rest)) = _ :=
    Scan.string_closed spelling (trailing ++ rest)
  rw [Scan.word_append unbroken ends, if_neg (by simpa using more)] at scanned
  have takes := @takes_move c ('"' :: (inner ++ '"' :: trailing)) rest (by simp [ahead])
  rw [scanned] at read
  have length : ('"' :: (inner ++ '"' :: trailing)).length = inner.length + 2 + trailing.length := by
    simp only [List.length_cons, List.length_append]
    omega
  rw [length] at takes
  exact ⟨_, _, read, takes⟩

/-- Literals between quotes are decoded exactly. A string is read if and only if a spelling of it
stands between double quotes, before a separator or the end of the text; its token covers the
spelling with both quotes. Where a spelling is not closed so, the fault is an escape that there is
not, which is blamed on the backslash and the character behind it; the end of the text, which is
blamed on the opening quote; or the word right behind the closing quote, which is blamed together
with the literal. A character is read if and only if a spelling of it alone stands between
apostrophes, and it is never the apostrophe. -/
theorem literals_decoded (c : Cursor) :
    (∀ text span after, c.read = (some (.ok ⟨.atom (.string text), span⟩), after) ↔
      ∃ inner, c.Takes ('"' :: (inner ++ ['"'])) span after ∧ Spelling inner text.toList ∧
        Scan.WordEnd after.rest) ∧
    (∀ inner s e rest, c.skipGaps.rest = '"' :: (inner ++ '\\' :: e :: rest) → Spelling inner s →
      (∀ d, ¬ Escape e d) →
      ∃ span after, c.read = (some (.error ⟨.invalidEscape e.toString, span⟩), after) ∧
        span = ⟨c.skipGaps.offset + inner.length + 1, c.skipGaps.offset + inner.length + 3,
          c.source⟩ ∧
        span.text = String.ofList ['\\', e]) ∧
    (∀ inner s rest, c.skipGaps.rest = '"' :: (inner ++ rest) → Spelling inner s →
      rest = [] ∨ rest = ['\\'] →
      ∃ span after, c.read = (some (.error ⟨.unclosedString, span⟩), after) ∧
        span = ⟨c.skipGaps.offset, c.skipGaps.offset + 1, c.source⟩ ∧ span.text = "\"" ∧
        after.rest = []) ∧
    (∀ inner s trailing rest, c.skipGaps.rest = '"' :: (inner ++ '"' :: (trailing ++ rest)) →
      Spelling inner s → trailing ≠ [] → Scan.Unbroken trailing → Scan.WordEnd rest →
      ∃ span after, c.read = (some (.error ⟨.invalidString, span⟩), after) ∧
        c.Takes ('"' :: (inner ++ '"' :: trailing)) span after) ∧
    (∀ x span after, c.read = (some (.ok ⟨.atom (.char x), span⟩), after) ↔
      ∃ inner, c.Takes ('\x27' :: (inner ++ ['\x27'])) span after ∧ Spelling.Single inner x) ∧
    ∀ x span after, c.read = (some (.ok ⟨.atom (.char x), span⟩), after) → x ≠ '\x27' := by
  refine ⟨fun _ _ _ => read_string_iff, ?_, ?_, ?_, fun _ _ _ => read_char_iff, ?_⟩
  · intro inner s e rest ahead spelling unknown
    exact read_unknown_escape ahead spelling unknown
  · intro inner s rest ahead spelling ended
    exact read_unclosed ahead spelling ended
  · intro inner s trailing rest ahead spelling more unbroken ends
    exact read_trailing ahead spelling more unbroken ends
  · intro x span after read
    obtain ⟨inner, -, single⟩ := read_char_iff.mp read
    exact single.ne_apostrophe

theorem literals_decoded_escapes :
    let unknown := atStart (.ofText ",\"\\n\\x\"" none)
    let cut := atStart (.ofText "\"\\\\\\" none)
    let spoilt := atStart (.ofText "\"\\\"\"a b" none)
    let char := atStart (.ofText "'\\e'" none)
    (unknown.skipGaps.rest = '"' :: (['\\', 'n'] ++ '\\' :: 'x' :: ['"']) ∧
      Spelling ['\\', 'n'] ['\n'] ∧ (∀ d, ¬ Escape 'x' d) ∧
      ∃ span after, unknown.read = (some (.error ⟨.invalidEscape "x", span⟩), after) ∧
        span.text = "\\x") ∧
    (cut.skipGaps.rest = '"' :: (['\\', '\\'] ++ ['\\']) ∧
      Spelling ['\\', '\\'] ['\\'] ∧
      ∃ span after, cut.read = (some (.error ⟨.unclosedString, span⟩), after) ∧
        span.text = "\"") ∧
    (spoilt.skipGaps.rest = '"' :: (['\\', '"'] ++ '"' :: (['a'] ++ [' ', 'b'])) ∧
      Spelling ['\\', '"'] ['"'] ∧ Scan.Unbroken ['a'] ∧ Scan.WordEnd [' ', 'b'] ∧
      ∃ span after, spoilt.read = (some (.error ⟨.invalidString, span⟩), after) ∧
        span.text = "\"\\\"\"a") ∧
    (∃ span after, char.read = (some (.ok ⟨.atom (.char '\x1b'), span⟩), after)) ∧
      '\x1b' ≠ '\x27' := by
  intro unknown cut spoilt char
  have other : ∀ d, ¬ Escape 'x' d := by
    intro d known
    cases known
  have newline : Spelling ['\\', 'n'] ['\n'] := .escaped .newline .nil
  have backslash : Spelling ['\\', '\\'] ['\\'] := .escaped .backslash .nil
  have quote : Spelling ['\\', '"'] ['"'] := .escaped .quote .nil
  have ends : Scan.WordEnd [' ', 'b'] := Scan.wordEnd_space ['b']
  obtain ⟨-, escapes, -, -, -, -⟩ := literals_decoded unknown
  obtain ⟨-, -, ended, -, -, -⟩ := literals_decoded cut
  obtain ⟨-, -, -, trails, -, -⟩ := literals_decoded spoilt
  obtain ⟨-, -, -, -, -, never⟩ := literals_decoded char
  refine ⟨⟨rfl, newline, other, ?_⟩, ⟨rfl, backslash, ?_⟩, ⟨rfl, quote, by decide, ends, ?_⟩, ?_⟩
  · obtain ⟨span, after, read, -, text⟩ := escapes _ _ 'x' ['"'] rfl newline other
    exact ⟨span, after, read, text⟩
  · obtain ⟨span, after, read, -, text, -⟩ := ended _ _ ['\\'] rfl backslash (.inr rfl)
    exact ⟨span, after, read, text⟩
  · obtain ⟨span, after, read, takes⟩ :=
      trails _ _ ['a'] [' ', 'b'] rfl quote (by decide) (by decide) ends
    exact ⟨span, after, read, takes.text_eq⟩
  · have read : char.read = (some (.ok ⟨.atom (.char '\x1b'), ⟨0, 4, char.source⟩⟩), char.move 4) :=
      rfl
    exact ⟨⟨_, _, read⟩, never _ _ _ read⟩

end Cursor
end Lisplet

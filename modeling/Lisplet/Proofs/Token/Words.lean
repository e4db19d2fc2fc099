import Lisplet.Proofs.Token.Kinds

/-!
Words. A word reads the same before every end of a word, that is before a separator or the end of
the text.
-/

namespace Lisplet

namespace Scan

def Unbroken (cs : List Char) : Prop := ∀ c ∈ cs, isSeparator c = false

instance (cs : List Char) : Decidable (Unbroken cs) :=
  decidable_of_iff (cs.all fun c => !isSeparator c) (by simp [Unbroken])

/-- What may stand behind a word. -/
def WordEnd (rest : List Char) : Prop := ∀ c ∈ rest.head?, isSeparator c = true

theorem wordEnd_nil : WordEnd [] := fun _ none => nomatch none

theorem wordEnd_space (rest : List Char) : WordEnd (' ' :: rest) := by
  rintro c ⟨⟩
  rfl

theorem wordEnd_closing (shape : Shape) (rest : List Char) : WordEnd (shape.closing :: rest) := by
  rintro c ⟨⟩
  cases shape <;> rfl

variable {c : Char} {cs rest : List Char}

theorem word_eq_nil (ends : WordEnd rest) : word rest = [] := by
  cases rest with
  | nil => rfl
  | cons c rest => simp [word, ends c rfl]

theorem word_append (unbroken : Unbroken cs) (ends : WordEnd rest) : word (cs ++ rest) = cs := by
  have inside : ∀ c ∈ cs, (!isSeparator c) = true := by
    intro c member
    rw [unbroken c member]
    rfl
  rw [word, List.takeWhile_append_of_pos inside]
  exact (congrArg (cs ++ ·) (word_eq_nil ends)).trans (List.append_nil cs)

/-- The rest of a text behind its first word. -/
theorem exists_word (cs : List Char) : ∃ behind, cs = word cs ++ behind ∧ WordEnd behind := by
  refine ⟨cs.dropWhile fun c => !isSeparator c, List.takeWhile_append_dropWhile.symm, ?_⟩
  intro d first
  have separates := List.head?_dropWhile_not (fun c => !isSeparator c) cs
  rw [Option.mem_def.mp first] at separates
  simpa using separates

theorem unbroken_word (cs : List Char) : Unbroken (word cs) := by
  intro c member
  simpa using List.all_eq_true.mp List.all_takeWhile c member

theorem isDigit_of_isSeparator (separator : isSeparator c) : c.isDigit = false := by
  simp only [isSeparator, isGap, isSpace, Bool.or_eq_true, decide_eq_true_eq, or_assoc] at separator
  obtain rfl | rfl | rfl | rfl | rfl | rfl | rfl | rfl | rfl | rfl | rfl | rfl := separator <;> rfl

theorem startsNumber_append (ends : WordEnd rest) :
    startsNumber c (cs ++ rest) = startsNumber c cs := by
  cases cs with
  | cons d cs => rfl
  | nil =>
    cases rest with
    | nil => rfl
    | cons d rest => simp [startsNumber, isDigit_of_isSeparator (ends d rfl)]

theorem startsNumber_word (c : Char) (cs : List Char) :
    startsNumber c (word cs) = startsNumber c cs := by
  obtain ⟨behind, whole, ends⟩ := exists_word cs
  rw [← startsNumber_append ends, ← whole]

theorem isGap_of_unbroken (unbroken : Unbroken (c :: cs)) : isGap c = false := by
  have first := unbroken c List.mem_cons_self
  simp only [isSeparator, Bool.or_eq_false_iff] at first
  exact first.1.1.1.1.1

/-- The words that stand for values of their own. -/
def literals : List (String × Atom) := [("true", .bool true), ("false", .bool false), ("nil", .nil)]

theorem wordAtom_cases (w : String) :
    (∃ b, wordAtom w = .bool b) ∨ wordAtom w = .nil ∨ wordAtom w = .symbol ⟨w⟩ := by
  simp only [wordAtom]
  split
  · simp
  split
  · simp
  split
  · simp
  · simp

theorem wordAtom_eq_symbol_iff {w : String} {s : Symbol} :
    wordAtom w = .symbol s ↔ s = ⟨w⟩ ∧ w ∉ literals.map Prod.fst := by
  simp only [wordAtom, literals]
  split
  · simp_all
  split
  · simp_all
  split
  · simp_all
  · simp_all [eq_comm]

theorem wordAtom_of_literal {w : String} {a : Atom} (literal : (w, a) ∈ literals) :
    wordAtom w = a := by
  simp only [literals, List.mem_cons, Prod.mk.injEq, List.not_mem_nil, or_false] at literal
  rcases literal with ⟨rfl, rfl⟩ | ⟨rfl, rfl⟩ | ⟨rfl, rfl⟩ <;> rfl

/-- A word that starts like no keyword, string or character is a number or a symbol. -/
theorem scan_word (unbroken : Unbroken (c :: cs)) (plain : c ≠ ':' ∧ c ≠ '"' ∧ c ≠ '\x27')
    (ends : WordEnd rest) :
    scan c (cs ++ rest) = if startsNumber c cs then number (c :: cs) else symbol (c :: cs) := by
  obtain ⟨first, others⟩ := List.forall_mem_cons.mp unbroken
  have bracket : bracket? c = none := by
    unfold bracket?
    split <;> first | rfl | cases first
  have comment : c ≠ ';' := by
    rintro rfl
    cases first
  rw [scan, bracket, word_append others ends, startsNumber_append ends]
  simp [comment, plain]

theorem kinds_word {kind : Token.Kind} (unbroken : Unbroken (c :: cs))
    (plain : c ≠ ':' ∧ c ≠ '"' ∧ c ≠ '\x27') (ends : WordEnd rest)
    (read : (if startsNumber c cs then number (c :: cs) else symbol (c :: cs)) =
      token kind (cs.length + 1)) :
    kinds (c :: cs ++ rest) = .ok kind :: kinds rest :=
  kinds_token (isGap_of_unbroken unbroken) ((scan_word unbroken plain ends).trans read)

theorem kinds_keyword (unbroken : Unbroken cs) (ends : WordEnd rest) :
    kinds (':' :: cs ++ rest) = .ok (.atom (.keyword ⟨String.ofList cs⟩)) :: kinds rest := by
  refine kinds_token rfl ?_
  simp [scan, bracket?, startsNumber, keyword, word_append unbroken ends]

theorem kinds_opening (shape : Shape) (rest : List Char) :
    kinds (shape.opening :: rest) = .ok (.opening shape) :: kinds rest := by
  cases shape <;> exact @kinds_token _ [] rest _ rfl rfl

theorem kinds_closing (shape : Shape) (rest : List Char) :
    kinds (shape.closing :: rest) = .ok (.closing shape) :: kinds rest := by
  cases shape <;> exact @kinds_token _ [] rest _ rfl rfl

end Scan
end Lisplet

import Lisplet.Proofs.Token.Words
import Lisplet.Value.Display

/-!
Strings and characters between quotes. The display form escapes the double quote only, and the
reader gives a meaning to every backslash, so a string reads back if and only if there is no
backslash in it: the text behind the first one never reads as the string again.
-/

namespace Lisplet

/-- The characters of a string as they stand between its quotes. -/
def escape : List Char → List Char
  | [] => []
  | c :: cs => if c = '"' then '\\' :: '"' :: escape cs else c :: escape cs

theorem toList_displayString (s : String) :
    (displayString s).toList = '"' :: (escape s.toList ++ ['"']) := by
  have inside (cs : List Char) :
      (String.join (cs.map fun c => if c = '"' then "\\\"" else c.toString)).toList = escape cs := by
    induction cs with
    | nil => simp [escape]
    | cons c cs ih =>
      rw [List.map_cons, String.join_cons, String.toList_append, ih, escape]
      split <;> simp [Char.toString]
  rw [displayString, String.toList_append, String.toList_append, inside]
  rfl

namespace Scan

theorem Body.text?_after (c : Char) (count : Nat) (b : Body) :
    (b.after c count).text? = b.text?.map (c :: ·) := by
  cases b <;> rfl

theorem body_plain {c : Char} (rest : List Char) (quote : c ≠ '"') (backslash : c ≠ '\\') :
    body (c :: rest) = (body rest).after c 1 := by
  rw [body]
  · exact quote
  · exact fun same => absurd same backslash
  · exact fun _ _ same => absurd same backslash

theorem body_escaped {c d : Char} (rest : List Char) (known : unescape? c = some d) :
    body ('\\' :: c :: rest) = (body rest).after d 2 := by
  rw [body, known]

/-- A text without backslashes is read up to its closing quote. -/
theorem body_escape {cs : List Char} (clean : '\\' ∉ cs) (rest : List Char) :
    body (escape cs ++ '"' :: rest) = .closed cs (escape cs).length := by
  induction cs with
  | nil => rfl
  | cons c cs ih =>
    obtain ⟨other, others⟩ := not_or.mp (mt List.mem_cons.mpr clean)
    rw [escape]
    split
    · rename_i quote
      subst quote
      rw [List.cons_append, List.cons_append, body_escaped _ rfl, ih others]
      rfl
    · rename_i plain
      rw [List.cons_append, body_plain _ plain (Ne.symm other), ih others]
      rfl

theorem replicate_append_cons (c : Char) (n : Nat) (cs : List Char) :
    List.replicate n c ++ c :: cs = c :: (List.replicate n c ++ cs) := by
  induction n with
  | zero => rfl
  | succ n ih => rw [List.replicate_succ, List.cons_append, ih, List.cons_append]

theorem ne_backslash_of_unescape? {c d : Char} (known : unescape? c = some d) (other : c ≠ '\\') :
    d ≠ '\\' := by
  rintro rfl
  unfold unescape? at known
  split at known
  · cases known
  · exact other rfl
  · cases known
  · cases known
  · cases known

/-- What a backslash reads as goes wrong, or it takes the next one with it. -/
theorem backslash_of_body {cs rest text : List Char}
    (read : (body (escape ('\\' :: cs) ++ '"' :: rest)).text? = some ('\\' :: text)) :
    (∃ tail, cs = '\\' :: tail ∧ (body (escape tail ++ '"' :: rest)).text? = some text) ∨
      (text = [] ∧ cs ≠ []) := by
  rw [escape, if_neg (by decide), List.cons_append] at read
  cases cs with
  | nil =>
    change (body ('\\' :: '"' :: rest)).text? = _ at read
    rw [body_escaped _ rfl, Body.text?_after] at read
    obtain ⟨_, -, same⟩ := Option.map_eq_some_iff.mp read
    cases same
  | cons d tail =>
    rw [escape] at read
    split at read
    · -- The backslash before a quote is taken for an escaped one, and the quote closes the string.
      change (body ('\\' :: '\\' :: '"' :: (escape tail ++ '"' :: rest))).text? = _ at read
      rw [body_escaped _ rfl, Body.text?_after] at read
      obtain ⟨_, closed, same⟩ := Option.map_eq_some_iff.mp read
      cases closed
      exact .inr ⟨(List.cons.inj same).2.symm, by simp⟩
    · rw [List.cons_append] at read
      cases known : unescape? d with
      | none =>
        rw [body, known] at read
        cases read
      | some e =>
        rw [body_escaped _ known, Body.text?_after] at read
        obtain ⟨_, behind, same⟩ := Option.map_eq_some_iff.mp read
        obtain ⟨rfl, rfl⟩ := List.cons.inj same
        by_cases backslash : d = '\\'
        · exact .inl ⟨tail, by rw [backslash], behind⟩
        · exact absurd rfl (ne_backslash_of_unescape? known backslash)

/-- A character that is read as itself. -/
theorem text?_body_escape_cons {c : Char} (backslash : c ≠ '\\') (cs rest : List Char) :
    (body (escape (c :: cs) ++ '"' :: rest)).text? =
      (body (escape cs ++ '"' :: rest)).text?.map (c :: ·) := by
  rw [escape]
  split
  · rename_i quote
    subst quote
    rw [List.cons_append, List.cons_append, body_escaped _ rfl, Body.text?_after]
  · rename_i plain
    rw [List.cons_append, body_plain _ plain backslash, Body.text?_after]

/-- A reader that has lost `n` backslashes never makes up for them: it reads them and then the
text only if none were lost and the text has none. -/
theorem clean_of_body (cs : List Char) (n : Nat) (rest : List Char)
    (read : (body (escape cs ++ '"' :: rest)).text? = some (List.replicate n '\\' ++ cs)) :
    n = 0 ∧ '\\' ∉ cs := by
  match cs with
  | [] =>
    have none := Option.some.inj read
    simpa using none.symm
  | c :: cs =>
    by_cases backslash : c = '\\'
    · subst backslash
      rw [replicate_append_cons] at read
      rcases backslash_of_body read with ⟨tail, same, read⟩ | ⟨none, some⟩
      · rw [same, replicate_append_cons, ← List.cons_append, ← List.replicate_succ] at read
        have shorter : tail.length < cs.length + 1 := by
          rw [same, List.length_cons]
          omega
        obtain ⟨impossible, -⟩ := clean_of_body tail (n + 1) rest read
        cases impossible
      · exact absurd (List.append_eq_nil_iff.mp none).2 some
    · rw [text?_body_escape_cons backslash] at read
      obtain ⟨text, behind, same⟩ := Option.map_eq_some_iff.mp read
      cases n with
      | zero =>
        obtain ⟨-, rfl⟩ := List.cons.inj same
        obtain ⟨-, clean⟩ := clean_of_body text 0 rest behind
        exact ⟨rfl, fun member => (List.mem_cons.mp member).elim (Ne.symm backslash) clean⟩
      | succ n =>
        exact absurd (List.cons.inj same).1 backslash
termination_by cs.length

variable {rest : List Char}

theorem kinds_string {s : String} (clean : '\\' ∉ s.toList) (ends : WordEnd rest) :
    kinds ((displayString s).toList ++ rest) = .ok (.atom (.string s)) :: kinds rest := by
  rw [toList_displayString]
  refine kinds_token rfl ?_
  have behind : (escape s.toList ++ '"' :: rest).drop ((escape s.toList).length + 1) = rest := by
    rw [List.drop_append]
    simp
  have read : string (escape s.toList ++ '"' :: rest) =
      token (.atom (.string s)) ((escape s.toList).length + 2) := by
    rw [string, body_escape clean]
    dsimp only
    rw [behind, word_eq_nil ends]
    simp
  have quote : scan '"' (escape s.toList ++ ['"'] ++ rest) =
      string (escape s.toList ++ '"' :: rest) := by
    rw [List.append_assoc]
    rfl
  rw [quote, read]
  simp

theorem kinds_char {c : Char} (quote : c ≠ '\x27') (backslash : c ≠ '\\') (rest : List Char) :
    kinds ('\x27' :: c :: '\x27' :: rest) = .ok (.atom (.char c)) :: kinds rest := by
  refine @kinds_token '\x27' [c, '\x27'] rest _ rfl ?_
  show char (c :: '\x27' :: rest) = _
  rw [char]
  · rw [if_neg quote]
    rfl
  · exact fun same => absurd same backslash
  · exact fun _ _ same => absurd same backslash

/-- A string with a backslash is read as another one, if as any. -/
theorem string_of_backslash {s : String} (backslash : '\\' ∈ s.toList) {kind : Token.Kind}
    (read : (string (escape s.toList ++ '"' :: rest)).outcome = .ok kind) :
    ∃ t, kind = .atom (.string t) ∧ t ≠ s := by
  obtain ⟨text, rfl, closed⟩ := string_outcome read
  refine ⟨_, rfl, ?_⟩
  rintro rfl
  rw [String.toList_ofList] at closed backslash
  obtain ⟨-, clean⟩ := clean_of_body text 0 rest closed
  exact clean backslash

end Scan
end Lisplet

import Lisplet.Proofs.Token.Quotes

/-!
Reading across the end of a line. What a scan finds in a text it also finds if the text goes on on
a new line; and a fault does not go away if nothing but closing brackets follows.
-/

namespace Lisplet

namespace Scan

/-- What a scan found at an offset of a source. -/
def located (source : Source) (offset : Nat) : Scan → Except LexError Token
  | token kind length => .ok ⟨kind, offset, offset + length, source⟩
  | fault f start stop _ => .error ⟨f, offset + start, offset + stop, source⟩

/-- All that is read from characters that stand at an offset of a source. -/
def lexemes (source : Source) (offset : Nat) : List Char → List (Except LexError Token)
  | [] => []
  | c :: rest =>
    if isGap c then lexemes source (offset + 1) rest
    else (scan c rest).located source offset ::
      lexemes source (offset + (scan c rest).length) ((c :: rest).drop (scan c rest).length)
termination_by cs => cs.length
decreasing_by
  · simp
  · have := length_scan_pos c rest
    simp only [List.length_drop, List.length_cons]
    omega

variable {source : Source} {offset : Nat} {c : Char} {cs rest more : List Char}

theorem lexemes_gap (gap : isGap c) :
    lexemes source offset (c :: rest) = lexemes source (offset + 1) rest := by
  rw [lexemes, if_pos gap]

theorem lexemes_cons (solid : isGap c = false) :
    lexemes source offset (c :: rest) = (scan c rest).located source offset ::
      lexemes source (offset + (scan c rest).length) ((c :: rest).drop (scan c rest).length) := by
  rw [lexemes, if_neg (by simp [solid])]

theorem lexemes_dropWhile (source : Source) (offset : Nat) (cs : List Char) :
    lexemes source (offset + (cs.takeWhile isGap).length) (cs.dropWhile isGap) =
      lexemes source offset cs := by
  induction cs generalizing offset with
  | nil => rfl
  | cons c cs ih =>
    by_cases gap : isGap c
    · rw [List.takeWhile_cons_of_pos gap, List.dropWhile_cons_of_pos gap, lexemes_gap gap,
        ← ih (offset + 1), List.length_cons, Nat.add_assoc, Nat.add_comm 1]
    · rw [List.takeWhile_cons_of_neg gap, List.dropWhile_cons_of_neg gap]
      rfl

end Scan

/-- What a cursor reads depends on its place and on the characters from there on. -/
theorem Cursor.lexemes_eq (c : Cursor) :
    c.lexemes = Scan.lexemes c.source c.offset c.rest := by
  induction c using lexemes.induct with
  | case1 c after ended =>
    rw [lexemes_of_none ended]
    unfold Cursor.read at ended
    dsimp only at ended
    split at ended
    · rename_i ahead
      rw [rest_skipGaps] at ahead
      rw [← Scan.lexemes_dropWhile, ahead, Scan.lexemes]
    · cases ended
  | case2 c found after read ih =>
    rw [lexemes_of_some read, ih]
    unfold Cursor.read at read
    dsimp only at read
    split at read
    · cases read
    · rename_i char rest ahead
      cases read
      have skipped := ahead
      rw [rest_skipGaps] at ahead
      have solid := Scan.isGap_of_dropWhile ahead
      rw [← Scan.lexemes_dropWhile c.source c.offset c.rest, ahead, Scan.lexemes_cons solid,
        ← skipped]
      cases Scan.scan char rest <;> rfl

namespace Scan

variable {source : Source} {offset : Nat} {c : Char} {cs rest more : List Char}

/-! A scan takes no more characters than there are. -/

theorem length_body_le (cs : List Char) :
    (∀ text length, body cs = .closed text length → length + 1 ≤ cs.length) ∧
      ∀ c start, body cs = .badEscape c start → start + 2 ≤ cs.length := by
  have later {b : Body} {d : Char} {count n : Nat}
      (inner : (∀ text length, b = .closed text length → length + 1 ≤ n) ∧
        ∀ c start, b = .badEscape c start → start + 2 ≤ n) :
      (∀ text length, b.after d count = .closed text length → length + 1 ≤ n + count) ∧
        ∀ c start, b.after d count = .badEscape c start → start + 2 ≤ n + count := by
    cases b with
    | closed text length =>
      have := inner.1 text length rfl
      refine ⟨?_, nofun⟩
      rintro _ _ ⟨⟩
      omega
    | badEscape c start =>
      have := inner.2 c start rfl
      refine ⟨nofun, ?_⟩
      rintro _ _ ⟨⟩
      omega
    | unclosed => exact ⟨nofun, nofun⟩
  fun_induction body cs with
  | case1 | case3 => exact ⟨nofun, nofun⟩
  | case2 rest =>
    refine ⟨?_, nofun⟩
    rintro _ _ ⟨⟩
    simp
  | case4 c rest d known ih => exact later ih
  | case5 c rest unknown =>
    refine ⟨nofun, ?_⟩
    rintro _ _ ⟨⟩
    simp
  | case6 c rest quote last escape ih => exact later ih

theorem length_word_le (cs : List Char) : (word cs).length ≤ cs.length :=
  (List.takeWhile_sublist _).length_le

theorem length_string_le (rest : List Char) : (string rest).length ≤ rest.length + 1 := by
  obtain ⟨closes, escapes⟩ := length_body_le rest
  unfold string
  split
  · rename_i text length closed
    have inside := closes text length closed
    have trailing := length_word_le (rest.drop (length + 1))
    rw [List.length_drop] at trailing
    dsimp only
    split
    · simp only [Scan.length]
      omega
    · simp only [Scan.length]
      omega
  · rename_i c start bad
    have inside := escapes c start bad
    simp only [Scan.length]
    omega
  · exact Nat.le_refl _

theorem length_closeChar_le (c : Char) (n : Nat) (rest : List Char) :
    (closeChar c n rest).length ≤ rest.length + n := by
  unfold closeChar
  split
  · simp [length]
  · rename_i d rest
    have inside := length_word_le (d :: rest)
    dsimp only
    split
    · simp only [length, List.length_cons]
      omega
    · simp only [length]
      omega

theorem length_char_le (rest : List Char) : (char rest).length ≤ rest.length + 1 := by
  unfold char
  split
  · exact Nat.le_refl _
  · exact Nat.le_refl _
  · split
    · exact length_closeChar_le _ 3 _
    · simp [length]
  · rename_i c rest _ _
    split
    · have inside := length_word_le rest
      simp only [length, List.length_cons]
      omega
    · exact length_closeChar_le c 2 rest

theorem length_scan_le (c : Char) (rest : List Char) : (scan c rest).length ≤ rest.length + 1 := by
  have reading := reading c rest
  generalize scan c rest = found at reading
  cases reading with
  | bracket _ => simp [length]
  | number _ _ =>
    have inside := length_word_le rest
    unfold number
    split
    · simpa [length] using inside
    · simpa [length] using inside
  | comment _ =>
    simpa [comment, length] using (List.takeWhile_sublist (· != '\n')).length_le
  | keyword _ => simpa [keyword, length] using length_word_le rest
  | string _ => exact length_string_le rest
  | char _ => exact length_char_le rest
  | symbol _ _ _ _ => simpa [symbol, length] using length_word_le rest

/-! A scan of a text that goes on on a new line. Literals that the end of the text has cut off are
faults, and to close them takes a quote. -/

theorem wordEnd_newline (more : List Char) : WordEnd ('\n' :: more) := by
  rintro c ⟨⟩
  rfl

theorem word_newline (cs more : List Char) : word (cs ++ '\n' :: more) = word cs := by
  induction cs with
  | nil => exact word_eq_nil (wordEnd_newline more)
  | cons c cs ih =>
    rw [List.cons_append]
    unfold word at ih ⊢
    rw [List.takeWhile_cons, List.takeWhile_cons, ih]

def Fails (found : Scan) : Prop := ∃ f, found.outcome = .error f

/-- Text in which no literal is closed. -/
def Unquoted (cs : List Char) : Prop := '"' ∉ cs ∧ '\x27' ∉ cs

theorem Body.after_eq_unclosed {b : Body} {c : Char} {count : Nat} :
    b.after c count = .unclosed ↔ b = .unclosed := by
  cases b with
  | closed | badEscape => exact ⟨nofun, nofun⟩
  | unclosed => exact ⟨fun _ => rfl, fun _ => rfl⟩

theorem body_append (ended : body cs ≠ .unclosed) (tail : List Char) :
    body (cs ++ tail) = body cs := by
  fun_induction body cs with
  | case1 | case3 => exact absurd rfl ended
  | case2 rest => rfl
  | case4 c rest d known ih =>
    rw [List.cons_append, List.cons_append, body_escaped _ known,
      ih (mt Body.after_eq_unclosed.mpr ended)]
  | case5 c rest unknown =>
    rw [List.cons_append, List.cons_append, body, unknown]
  | case6 c rest quote last escape ih =>
    have backslash : c ≠ '\\' := by
      rintro rfl
      cases rest with
      | nil => exact last rfl rfl
      | cons d rest => exact escape d rest rfl rfl
    rw [List.cons_append, body_plain _ quote backslash, ih (mt Body.after_eq_unclosed.mpr ended)]

theorem text?_body_of_unquoted (unquoted : '"' ∉ cs) : (body cs).text? = none := by
  fun_induction body cs with
  | case1 | case3 | case5 => rfl
  | case2 => exact absurd List.mem_cons_self unquoted
  | case4 c rest d known ih =>
    rw [Body.text?_after, ih fun member => unquoted (.tail _ (.tail _ member))]
    rfl
  | case6 c rest quote last escape ih =>
    rw [Body.text?_after, ih fun member => unquoted (.tail _ member)]
    rfl

/-- A backslash that ends the text becomes one in front of the line end, which escapes nothing. -/
theorem text?_body_newline (opened : body cs = .unclosed) (unquoted : '"' ∉ more) :
    (body (cs ++ '\n' :: more)).text? = none := by
  fun_induction body cs with
  | case1 => exact text?_body_of_unquoted (by simpa using unquoted)
  | case2 => cases opened
  | case3 => rfl
  | case4 c rest d known ih =>
    rw [List.cons_append, List.cons_append, body_escaped _ known, Body.text?_after,
      ih (Body.after_eq_unclosed.mp opened)]
    rfl
  | case5 => cases opened
  | case6 c rest quote last escape ih =>
    have backslash : c ≠ '\\' := by
      rintro rfl
      cases rest with
      | nil => exact last rfl rfl
      | cons d rest => exact escape d rest rfl rfl
    rw [List.cons_append, body_plain _ quote backslash, Body.text?_after,
      ih (Body.after_eq_unclosed.mp opened)]
    rfl

/-- What is read at the end of a text does not depend on what stands on the next line, or it is a
fault that only a quote could mend. -/
def Settled (read : List Char → Scan) (rest : List Char) : Prop :=
  (∀ more, read (rest ++ '\n' :: more) = read rest) ∨
    (read rest).Fails ∧ ∀ more, Unquoted more → (read (rest ++ '\n' :: more)).Fails

theorem string_fails (opened : (body cs).text? = none) : (string cs).Fails := by
  unfold string
  split
  · rename_i text length closed
    rw [closed] at opened
    cases opened
  · exact ⟨_, rfl⟩
  · exact ⟨_, rfl⟩

theorem string_settled (rest : List Char) : Settled string rest := by
  by_cases opened : body rest = .unclosed
  · refine .inr ⟨string_fails (by rw [opened]; rfl), fun more unquoted => ?_⟩
    exact string_fails (text?_body_newline opened unquoted.1)
  · refine .inl fun more => ?_
    have closes := (length_body_le rest).1
    unfold string
    rw [body_append opened]
    split
    · rename_i text length closed
      rw [List.drop_append_of_le_length (closes text length closed), word_newline]
    · rfl
    · exact absurd ‹_› opened

theorem closeChar_settled (c : Char) (n : Nat) (rest : List Char) :
    Settled (closeChar c n) rest := by
  cases rest with
  | nil => exact .inr ⟨⟨_, rfl⟩, fun more _ => ⟨_, rfl⟩⟩
  | cons d rest =>
    refine .inl fun more => ?_
    rw [List.cons_append, closeChar, closeChar, ← List.cons_append, word_newline]

theorem closeChar_fails (c : Char) (n : Nat) (unquoted : Unquoted cs) :
    (closeChar c n cs).Fails := by
  cases cs with
  | nil => exact ⟨_, rfl⟩
  | cons d rest =>
    have quote : d ≠ '\x27' := fun same => unquoted.2 (same ▸ List.mem_cons_self)
    rw [closeChar, if_neg quote]
    exact ⟨_, rfl⟩

theorem char_plain {c : Char} (backslash : c ≠ '\\') (rest : List Char) :
    char (c :: rest) =
      if c = '\x27' then fault .invalidChar 0 (2 + (word rest).length) (2 + (word rest).length)
      else closeChar c 2 rest := by
  rw [char]
  · exact fun same => absurd same backslash
  · exact fun _ _ same => absurd same backslash

theorem char_settled (rest : List Char) : Settled char rest := by
  cases rest with
  | nil => exact .inr ⟨⟨_, rfl⟩, fun more unquoted => closeChar_fails '\n' 2 unquoted⟩
  | cons c rest =>
    by_cases backslash : c = '\\'
    · subst backslash
      cases rest with
      | nil => exact .inr ⟨⟨_, rfl⟩, fun more _ => ⟨_, rfl⟩⟩
      | cons d rest =>
        unfold Settled
        simp only [List.cons_append, char]
        cases unescape? d with
        | some e => exact closeChar_settled e 3 rest
        | none => exact .inl fun more => rfl
    · unfold Settled
      simp only [List.cons_append, char_plain backslash, word_newline]
      split
      · exact .inl fun more => rfl
      · exact closeChar_settled c 2 rest

theorem comment_newline (rest more : List Char) :
    comment (rest ++ '\n' :: more) = comment rest := by
  have same : (rest ++ '\n' :: more).takeWhile (· != '\n') = rest.takeWhile (· != '\n') := by
    induction rest with
    | nil => rfl
    | cons c rest ih => rw [List.cons_append, List.takeWhile_cons, List.takeWhile_cons, ih]
  rw [comment, comment, same]

theorem scan_settled (c : Char) (rest : List Char) : Settled (scan c) rest := by
  have starts (more : List Char) : startsNumber c (rest ++ '\n' :: more) = startsNumber c rest :=
    startsNumber_append (wordEnd_newline more)
  unfold Settled scan
  simp only [starts, word_newline, comment_newline, keyword]
  cases bracket? c with
  | some kind => exact .inl fun more => rfl
  | none =>
    dsimp only
    by_cases digits : startsNumber c rest
    · simp only [if_pos digits, implies_true, true_or]
    simp only [if_neg digits]
    by_cases semicolon : c = ';'
    · simp only [if_pos semicolon, implies_true, true_or]
    simp only [if_neg semicolon]
    by_cases colon : c = ':'
    · simp only [if_pos colon, implies_true, true_or]
    simp only [if_neg colon]
    by_cases quotes : c = '"'
    · simp only [if_pos quotes]
      exact string_settled rest
    simp only [if_neg quotes]
    by_cases quote : c = '\x27'
    · simp only [if_pos quote]
      exact char_settled rest
    · simp only [if_neg quote, implies_true, true_or]

/-! Rows of lexemes. -/

theorem drop_scan (c : Char) (rest tail : List Char) :
    (c :: (rest ++ tail)).drop (scan c rest).length =
      (c :: rest).drop (scan c rest).length ++ tail := by
  rw [← List.cons_append]
  exact List.drop_append_of_le_length (length_scan_le c rest)

theorem located_of_fails {found : Scan} (fails : found.Fails) (source : Source) (offset : Nat) :
    ∃ e, found.located source offset = .error e := by
  obtain ⟨f, failed⟩ := fails
  cases found with
  | token => cases failed
  | fault => exact ⟨_, rfl⟩

/-- A fault remains one in front of a text that closes no literal. -/
theorem exists_error_newline {e : LexError} (fails : .error e ∈ lexemes source offset cs)
    (unquoted : Unquoted more) :
    ∃ e, .error e ∈ lexemes source offset (cs ++ '\n' :: more) := by
  induction offset, cs using lexemes.induct with
  | case1 offset =>
    rw [lexemes] at fails
    cases fails
  | case2 offset c rest gap ih =>
    rw [lexemes_gap gap] at fails
    rw [List.cons_append, lexemes_gap gap]
    exact ih fails
  | case3 offset c rest solid ih =>
    have solid := Bool.eq_false_iff.mpr solid
    rw [List.cons_append, lexemes_cons solid]
    rcases scan_settled c rest with same | ⟨-, still⟩
    · rw [lexemes_cons solid] at fails
      rw [same, drop_scan]
      rcases List.mem_cons.mp fails with here | later
      · exact ⟨e, here ▸ List.mem_cons_self⟩
      · obtain ⟨e, member⟩ := ih later
        exact ⟨e, List.mem_cons_of_mem _ member⟩
    · obtain ⟨e, failed⟩ := located_of_fails (still more unquoted) source offset
      exact ⟨e, failed ▸ List.mem_cons_self⟩

end Scan

end Lisplet

import Lisplet.Proofs.Token.Seam

/-!
Tokens in a row. A token is decided by its own characters; what stands behind it only has to end
it. So a text that reads without a fault is a row of gaps and tokens, which can be cut between its
tokens and continued by anything that ends the last of them.
-/

namespace Lisplet

namespace Scan

variable {source : Source} {offset : Nat} {c : Char} {cs rest : List Char} {kind : Token.Kind}

/-- What may stand behind a token. A comment goes on to the end of its line; brackets and
characters end by themselves, and all else ends like a word. -/
def Ends : Token.Kind → List Char → Prop
  | .comment _, rest => ∀ c ∈ rest.head?, c = '\n'
  | .opening _, _ | .closing _, _ | .atom (.char _), _ => True
  | .atom _, rest => WordEnd rest

theorem Ends.of_head {more : List Char} (ends : Ends kind rest)
    (same : ∀ c ∈ more.head?, c ∈ rest.head?) : Ends kind more := by
  cases kind with
  | comment text => exact fun c first => ends c (same c first)
  | opening shape | closing shape => trivial
  | atom a =>
    cases a with
    | char d => trivial
    | _ => exact fun c first => ends c (same c first)

theorem ends_nil (kind : Token.Kind) : Ends kind [] := by
  cases kind with
  | comment text => simp [Ends]
  | opening shape | closing shape => trivial
  | atom a =>
    cases a with
    | char d => trivial
    | _ => exact wordEnd_nil

theorem Ends.left (ends : Ends kind (cs ++ rest)) : Ends kind cs := by
  apply ends.of_head
  intro c first
  cases cs with
  | nil => simp at first
  | cons d cs => simpa using first

theorem ends_of_wordEnd (kept : kind.isComment = false) (word : WordEnd rest) :
    Ends kind rest := by
  cases kind with
  | comment text => simp [Token.Kind.isComment] at kept
  | opening shape | closing shape => trivial
  | atom a =>
    cases a with
    | char d => trivial
    | _ => exact word

/-- The end of a line ends everything. -/
theorem ends_newline (kind : Token.Kind) (rest : List Char) : Ends kind ('\n' :: rest) := by
  by_cases comment : kind.isComment
  · cases kind with
    | comment text => simp [Ends]
    | opening | closing | atom => simp [Token.Kind.isComment] at comment
  · exact ends_of_wordEnd (by simpa using comment) (wordEnd_newline rest)

/-- The token is read from these characters, whatever ends it. -/
def Spelled (c : Char) (cs : List Char) (kind : Token.Kind) : Prop :=
  ∀ rest, Ends kind rest → scan c (cs ++ rest) = token kind (cs.length + 1)

theorem Reading.scan_eq {found : Scan} (reading : Reading c rest found) :
    scan c rest = found := by
  cases reading with
  | bracket bracket => simp [scan, bracket]
  | number bracket digits => simp [scan, bracket, digits]
  | comment same | keyword same | string same | char same =>
    subst same
    rfl
  | symbol bracket comment plain digits => simp [scan, bracket, digits, comment, plain]

/-- A body is closed by its own quote. -/
theorem exists_of_body {text : List Char} {length : Nat} (closed : body cs = .closed text length) :
    ∃ inner behind, cs = inner ++ '"' :: behind ∧ inner.length = length ∧
      ∀ rest, body (inner ++ '"' :: rest) = .closed text length := by
  fun_induction body cs generalizing text length with
  | case1 | case3 | case5 => cases closed
  | case2 rest =>
    cases closed
    exact ⟨[], rest, rfl, rfl, fun rest => rfl⟩
  | case4 c rest d known ih =>
    cases inside : body rest with
    | badEscape | unclosed => simp [inside, Body.after] at closed
    | closed text' length' =>
      simp only [inside, Body.after, Body.closed.injEq] at closed
      obtain ⟨rfl, rfl⟩ := closed
      obtain ⟨inner, behind, rfl, rfl, read⟩ := ih inside
      refine ⟨'\\' :: c :: inner, behind, rfl, rfl, fun rest => ?_⟩
      simp [body_escaped _ known, read, Body.after]
  | case6 c rest quote last escape ih =>
    cases inside : body rest with
    | badEscape | unclosed => simp [inside, Body.after] at closed
    | closed text' length' =>
      simp only [inside, Body.after, Body.closed.injEq] at closed
      obtain ⟨rfl, rfl⟩ := closed
      obtain ⟨inner, behind, rfl, rfl, read⟩ := ih inside
      have backslash : c ≠ '\\' := by
        intro same
        cases inner with
        | nil => exact escape '"' behind same rfl
        | cons d inner => exact escape d (inner ++ '"' :: behind) same rfl
      refine ⟨c :: inner, behind, rfl, rfl, fun rest => ?_⟩
      simp [body_plain _ quote backslash, read, Body.after]

theorem wordEnd_of_word (ended : word rest = []) : WordEnd rest := by
  obtain ⟨behind, same, ends⟩ := exists_word rest
  rw [ended] at same
  exact same ▸ ends

theorem ends_wordAtom {w : String} : Ends (.atom (wordAtom w)) rest ↔ WordEnd rest := by
  rcases wordAtom_cases w with ⟨b, same⟩ | same | same
  all_goals
    rw [same]
    rfl

theorem startsNumber_word_append (ends : WordEnd rest) (c : Char) (cs : List Char) :
    startsNumber c (word cs ++ rest) = startsNumber c cs := by
  rw [startsNumber_append ends, startsNumber_word]

/-- The characters that a token is read from, with the rest behind them. -/
structure Taken (c : Char) (rest : List Char) (kind : Token.Kind) (length : Nat)
    (cs behind : List Char) : Prop where
  rest_eq : rest = cs ++ behind
  length_eq : length = cs.length + 1
  ends : Ends kind behind
  spelled : Spelled c cs kind

/-- A comment is read from the rest of its line. -/
theorem spelled_comment {text : List Char} (line : '\n' ∉ text) :
    Spelled ';' text (.comment (String.ofList text)) := by
  intro rest ends
  have inside : ∀ d ∈ text, (d != '\n') = true := by
    intro d member
    simpa using fun same : d = '\n' => line (same ▸ member)
  have ended : rest.takeWhile (· != '\n') = [] := by
    cases rest with
    | nil => rfl
    | cons d rest => simp [ends d rfl]
  show comment _ = _
  simp [comment, List.takeWhile_append_of_pos inside, ended]

theorem taken_comment (rest : List Char) :
    ∃ behind, Taken ';' rest (.comment (String.ofList (rest.takeWhile (· != '\n'))))
      ((rest.takeWhile (· != '\n')).length + 1) (rest.takeWhile (· != '\n')) behind := by
  refine ⟨rest.dropWhile (· != '\n'), List.takeWhile_append_dropWhile.symm, rfl, ?_, ?_⟩
  · intro d first
    have newline := List.head?_dropWhile_not (· != '\n') rest
    rw [Option.mem_def.mp first] at newline
    simpa using newline
  · apply spelled_comment
    intro member
    simpa using List.all_eq_true.mp List.all_takeWhile '\n' member

theorem taken_string {length : Nat} (read : string rest = token kind length) :
    ∃ cs behind, Taken '"' rest kind length cs behind := by
  unfold string at read
  split at read
  · rename_i text size closed
    obtain ⟨inner, behind, rfl, rfl, again⟩ := exists_of_body closed
    have behind_eq (more : List Char) :
        (inner ++ '"' :: more).drop (inner.length + 1) = more := by simp
    dsimp only at read
    rw [behind_eq] at read
    split at read
    · rename_i none
      simp only [List.isEmpty_iff] at none
      simp only [token.injEq] at read
      obtain ⟨rfl, rfl⟩ := read
      refine ⟨inner ++ ['"'], behind, by simp, by simp [none], wordEnd_of_word none, ?_⟩
      intro more ends
      have ended : word more = [] := word_eq_nil ends
      show string _ = _
      simp [string, again, behind_eq, ended]
    · cases read
  · cases read
  · cases read

theorem closeChar_eq_token {d : Char} {n length : Nat}
    (read : closeChar d n rest = token kind length) :
    ∃ behind, rest = '\x27' :: behind ∧ kind = .atom (.char d) ∧ length = n + 1 := by
  unfold closeChar at read
  split at read
  · cases read
  · rename_i first behind
    dsimp only at read
    split at read
    · rename_i quote
      cases read
      exact ⟨behind, by rw [quote], rfl, rfl⟩
    · cases read

theorem taken_char {length : Nat} (read : char rest = token kind length) :
    ∃ cs behind, Taken '\x27' rest kind length cs behind := by
  unfold char at read
  split at read
  · cases read
  · cases read
  · rename_i d rest
    split at read
    · rename_i e known
      obtain ⟨behind, rfl, rfl, rfl⟩ := closeChar_eq_token read
      refine ⟨['\\', d, '\x27'], behind, rfl, rfl, trivial, fun more _ => ?_⟩
      show char ('\\' :: d :: '\x27' :: more) = _
      simp [char, known, closeChar]
    · cases read
  · rename_i d rest last escape
    split at read
    · cases read
    · rename_i quote
      obtain ⟨behind, rfl, rfl, rfl⟩ := closeChar_eq_token read
      have backslash : d ≠ '\\' := fun same => escape '\x27' behind same rfl
      refine ⟨[d, '\x27'], behind, rfl, rfl, trivial, fun more _ => ?_⟩
      show char (d :: '\x27' :: more) = _
      simp [char_plain backslash, quote, closeChar]

/-- A token depends on nothing behind its own characters but that they end there. -/
theorem exists_taken {length : Nat} (read : scan c rest = token kind length) :
    ∃ cs behind, Taken c rest kind length cs behind := by
  have reading := reading c rest
  rw [read] at reading
  generalize found : token kind length = scanned at reading
  cases reading with
  | bracket bracket =>
    cases found
    refine ⟨[], rest, rfl, rfl, ?_, fun more _ => (Reading.bracket bracket).scan_eq⟩
    unfold bracket? at bracket
    split at bracket <;> cases bracket <;> trivial
  | number bracket digits =>
    obtain ⟨behind, same, ends⟩ := exists_word rest
    unfold number at found
    split at found
    · rename_i x known
      cases found
      refine ⟨word rest, behind, same, rfl, ends, fun more ended => ?_⟩
      have digits : startsNumber c (word rest ++ more) := by
        rw [startsNumber_word_append ended, digits]
      rw [(Reading.number bracket digits).scan_eq, word_append (unbroken_word rest) ended]
      simp [number, known]
    · cases found
  | comment semicolon =>
    subst semicolon
    cases found
    obtain ⟨behind, taken⟩ := taken_comment rest
    exact ⟨_, behind, taken⟩
  | keyword colon =>
    subst colon
    cases found
    obtain ⟨behind, same, ends⟩ := exists_word rest
    refine ⟨word rest, behind, same, rfl, ends, fun more ended => ?_⟩
    show keyword _ = _
    simp [keyword, word_append (unbroken_word rest) ended]
  | string quotes =>
    subst quotes
    exact taken_string found.symm
  | char quote =>
    subst quote
    exact taken_char found.symm
  | symbol bracket comment plain digits =>
    cases found
    obtain ⟨behind, same, ends⟩ := exists_word rest
    refine ⟨word rest, behind, same, rfl, ends_wordAtom.mpr ends, fun more ended => ?_⟩
    have ended := ends_wordAtom.mp ended
    have digits : startsNumber c (word rest ++ more) = false := by
      rw [startsNumber_word_append ended, digits]
    rw [(Reading.symbol bracket comment plain digits).scan_eq,
      word_append (unbroken_word rest) ended]
    simp [symbol]

/-- The characters at an offset of a source as gaps and tokens. -/
inductive Row (source : Source) : Nat → List Char → List Token → Prop where
  | nil {offset : Nat} : Row source offset [] []
  | gap {offset : Nat} {c : Char} {cs : List Char} {tokens : List Token} : isGap c →
      Row source (offset + 1) cs tokens → Row source offset (c :: cs) tokens
  | token {offset : Nat} {c : Char} {cs rest : List Char} {kind : Token.Kind}
      {tokens : List Token} : isGap c = false → Spelled c cs kind → Ends kind rest →
      Row source (offset + (cs.length + 1)) rest tokens →
      Row source offset (c :: (cs ++ rest))
        (⟨kind, offset, offset + (cs.length + 1), source⟩ :: tokens)

variable {tokens : List Token}

/-- What may stand behind a row: it ends the tokens that reach to the end of the row. -/
def Follows (stop : Nat) (tokens : List Token) (rest : List Char) : Prop :=
  ∀ t ∈ tokens, t.span.stop = stop → Ends t.kind rest

theorem follows_cons {stop : Nat} {t : Token} :
    Follows stop (t :: tokens) rest ↔
      (t.span.stop = stop → Ends t.kind rest) ∧ Follows stop tokens rest :=
  List.forall_mem_cons

theorem follows_nil (stop : Nat) (tokens : List Token) : Follows stop tokens [] :=
  fun t _ _ => ends_nil t.kind

theorem add_length_gap (offset : Nat) (c : Char) (cs : List Char) :
    offset + (c :: cs).length = offset + 1 + cs.length := by
  simp only [List.length_cons]
  omega

theorem add_length_token (offset : Nat) (c : Char) (cs rest : List Char) :
    offset + (c :: (cs ++ rest)).length = offset + (cs.length + 1) + rest.length := by
  simp only [List.length_cons, List.length_append]
  omega

/-- What is read from a row that goes on. -/
theorem Row.lexemes_append (row : Row source offset cs tokens)
    (follows : Follows (offset + cs.length) tokens rest) :
    lexemes source offset (cs ++ rest) =
      tokens.map .ok ++ lexemes source (offset + cs.length) rest := by
  induction row with
  | nil => rfl
  | @gap offset c cs tokens gap row ih =>
    rw [add_length_gap] at follows ⊢
    rw [List.cons_append, lexemes_gap gap, ih follows]
  | @token offset c cs behind kind tokens solid spelled ends row ih =>
    rw [add_length_token] at follows ⊢
    obtain ⟨here, later⟩ := follows_cons.mp follows
    have ended : Ends kind (behind ++ rest) := by
      cases behind with
      | nil => exact here rfl
      | cons d behind => exact ends.of_head fun c first => first
    have read := spelled (behind ++ rest) ended
    rw [List.cons_append, List.append_assoc, lexemes_cons solid, read, Scan.length,
      List.drop_succ_cons, List.drop_left, ih later]
    rfl

theorem Row.lexemes_eq (row : Row source offset cs tokens) :
    lexemes source offset cs = tokens.map .ok := by
  have read := row.lexemes_append (follows_nil _ _)
  simpa [lexemes] using read

/-- A text is cut where its first tokens end and the gap behind them. -/
theorem exists_row {after : List (Except LexError Token)}
    (read : lexemes source offset cs = tokens.map .ok ++ after) :
    ∃ first rest, cs = first ++ rest ∧ Row source offset first tokens ∧
      lexemes source (offset + first.length) rest = after ∧
      Follows (offset + first.length) tokens rest ∧ ∀ c ∈ rest.head?, isGap c = false := by
  induction offset, cs using lexemes.induct generalizing tokens with
  | case1 offset =>
    rw [lexemes] at read
    obtain ⟨none, rfl⟩ := List.append_eq_nil_iff.mp read.symm
    obtain rfl := List.map_eq_nil_iff.mp none
    exact ⟨[], [], rfl, .nil, by rw [lexemes], follows_nil _ _, by simp⟩
  | case2 offset c rest gap ih =>
    rw [lexemes_gap gap] at read
    obtain ⟨first, behind, rfl, row, others, follows, solid⟩ := ih read
    refine ⟨c :: first, behind, rfl, .gap gap row, ?_, ?_, solid⟩
    · rw [add_length_gap, others]
    · rw [add_length_gap]
      exact follows
  | case3 offset c rest solid ih =>
    have solid := Bool.eq_false_iff.mpr solid
    cases tokens with
    | nil =>
      refine ⟨[], c :: rest, rfl, .nil, read, by simp [Follows], ?_⟩
      simpa using solid
    | cons t tokens =>
      rw [lexemes_cons solid, List.map_cons, List.cons_append] at read
      obtain ⟨here, later⟩ := List.cons.inj read
      rcases found : scan c rest with ⟨kind, length⟩ | ⟨fault, start, stop, length⟩
      · rw [found] at here later ih
        cases here
        obtain ⟨cs, behind, rfl, rfl, ends, spelled⟩ := exists_taken found
        rw [Scan.length, List.drop_succ_cons, List.drop_left] at later ih
        obtain ⟨first, rest, rfl, row, others, follows, solid'⟩ := ih later
        refine ⟨c :: (cs ++ first), rest, by simp, .token solid spelled ends.left row, ?_, ?_,
          solid'⟩
        · rw [add_length_token, others]
        · rw [add_length_token]
          apply follows_cons.mpr
          constructor
          -- Only a token with nothing of the row behind it stands against the rest.
          · intro last
            have none : first = [] := by
              apply List.eq_nil_of_length_eq_zero
              dsimp only at last
              omega
            subst none
            exact ends
          · exact follows
      · rw [found] at here
        cases here

/-- What is read behind a gap stands there. -/
theorem start_of_lexemes {t : Token} {after : List (Except LexError Token)}
    (solid : ∀ c ∈ cs.head?, isGap c = false)
    (read : lexemes source offset cs = .ok t :: after) : t.span.start = offset := by
  cases cs with
  | nil =>
    rw [lexemes] at read
    cases read
  | cons c rest =>
    rw [lexemes_cons (solid c rfl)] at read
    obtain ⟨here, -⟩ := List.cons.inj read
    rcases found : scan c rest with ⟨kind, length⟩ | ⟨fault, start, stop, length⟩
    · rw [found] at here
      cases here
      rfl
    · rw [found] at here
      cases here

theorem row_of_lexemes (read : lexemes source offset cs = tokens.map .ok) :
    Row source offset cs tokens := by
  have whole : lexemes source offset cs = tokens.map .ok ++ [] := by simpa using read
  obtain ⟨first, rest, rfl, row, others, -, solid⟩ := exists_row whole
  cases rest with
  | nil => simpa using row
  | cons c rest =>
    rw [lexemes_cons (solid c rfl)] at others
    cases others

/-- A text that reads without a fault and goes on on a new line reads as itself and the rest. -/
theorem lexemes_newline (read : lexemes source offset cs = tokens.map .ok) (more : List Char) :
    lexemes source offset (cs ++ '\n' :: more) =
      lexemes source offset cs ++ lexemes source (offset + cs.length + 1) more := by
  have follows : Follows (offset + cs.length) tokens ('\n' :: more) :=
    fun t _ _ => ends_newline t.kind more
  rw [(row_of_lexemes read).lexemes_append follows, lexemes_gap rfl, read]

/-- A row is cut right behind one of its tokens. -/
theorem Row.cut {before after : List Token} {t : Token} (row : Row source offset cs tokens)
    (listed : tokens = before ++ t :: after) :
    ∃ first rest, cs = first ++ rest ∧ Row source offset first (before ++ [t]) ∧
      t.span.stop = offset + first.length := by
  induction row generalizing before with
  | nil => simp at listed
  | @gap offset c cs tokens gap row ih =>
    obtain ⟨first, rest, rfl, front, stop⟩ := ih listed
    refine ⟨c :: first, rest, rfl, .gap gap front, ?_⟩
    rw [stop, add_length_gap]
  | @token offset c cs behind kind tokens solid spelled ends row ih =>
    cases before with
    | nil =>
      simp only [List.nil_append, List.cons.injEq] at listed
      obtain ⟨rfl, rfl⟩ := listed
      refine ⟨c :: cs, behind, rfl, ?_, rfl⟩
      have alone : Row source offset (c :: (cs ++ []))
          [⟨kind, offset, offset + (cs.length + 1), source⟩] :=
        .token solid spelled (ends_nil kind) .nil
      rwa [List.append_nil] at alone
    | cons t' before =>
      simp only [List.cons_append, List.cons.injEq] at listed
      obtain ⟨rfl, listed⟩ := listed
      obtain ⟨first, rest, rfl, front, stop⟩ := ih listed
      refine ⟨c :: (cs ++ first), rest, by simp, .token solid spelled ends.left front, ?_⟩
      rw [stop, add_length_token]

end Scan
end Lisplet

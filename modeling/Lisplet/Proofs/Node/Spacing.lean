import Lisplet.Proofs.Node.Completion

/-!
Spacing. Gaps and whole comments between two texts make no form; they only move the second text.
A comment that the first text ends in goes on to the end of its line, which is in the space
between the texts.
-/

namespace Lisplet

namespace Scan

/-- Gaps, and comments up to the end of their line. -/
inductive Filler : List Char → Prop where
  | nil : Filler []
  | gap {c : Char} {cs : List Char} : isGap c → Filler cs → Filler (c :: cs)
  | comment {text cs : List Char} : '\n' ∉ text → Filler cs →
      Filler (';' :: (text ++ '\n' :: cs))

variable {source : Source} {offset : Nat} {c : Char} {cs rest space text : List Char}
  {tokens : List Token}

theorem Filler.wordEnd (filler : Filler space) (some : space ≠ []) (rest : List Char) :
    WordEnd (space ++ rest) := by
  cases filler with
  | nil => exact absurd rfl some
  | gap separates _ =>
    rintro c ⟨⟩
    simp [isSeparator, separates]
  | comment _ _ =>
    rintro c ⟨⟩
    rfl

/-- A filler goes on as one behind the end of its first line. -/
theorem Filler.exists_line (filler : Filler space) (newline : '\n' ∈ space) :
    ∃ line others, space = line ++ '\n' :: others ∧ '\n' ∉ line ∧ Filler others := by
  induction filler with
  | nil => cases newline
  | @gap c cs separates filler ih =>
    by_cases here : c = '\n'
    · subst here
      exact ⟨[], cs, rfl, List.not_mem_nil, filler⟩
    · have later : '\n' ∈ cs := (List.mem_cons.mp newline).resolve_left (Ne.symm here)
      obtain ⟨line, others, rfl, unbroken, filler⟩ := ih later
      refine ⟨c :: line, others, rfl, ?_, filler⟩
      simpa [Ne.symm here] using unbroken
  | @comment text cs unbroken filler _ =>
    exact ⟨';' :: text, cs, rfl, by simpa using unbroken, filler⟩

/-- A filler reads as comments. -/
theorem Filler.lexemes_append (filler : Filler space) (offset : Nat) (rest : List Char) :
    ∃ comments : List Token, Token.significant comments = [] ∧
      lexemes source offset (space ++ rest) =
        comments.map .ok ++ lexemes source (offset + space.length) rest := by
  induction filler generalizing offset with
  | nil => exact ⟨[], rfl, rfl⟩
  | @gap c cs separates filler ih =>
    obtain ⟨comments, none, read⟩ := ih (offset + 1)
    refine ⟨comments, none, ?_⟩
    rw [List.cons_append, lexemes_gap separates, read, add_length_gap]
  | @comment text cs unbroken filler ih =>
    obtain ⟨comments, none, read⟩ := ih (offset + (text.length + 1) + 1)
    refine ⟨⟨.comment (String.ofList text), offset, offset + (text.length + 1), source⟩ :: comments,
      none, ?_⟩
    have spelled := spelled_comment unbroken ('\n' :: (cs ++ rest)) (ends_newline _ _)
    rw [add_length_token, add_length_gap, List.cons_append, List.append_assoc, List.cons_append,
      lexemes_cons rfl, spelled, Scan.length, List.drop_succ_cons, List.drop_left, lexemes_gap rfl,
      read]
    rfl

/-- Behind a row that a filler ends only comments are added. -/
theorem Row.lexemes_filler (row : Row source offset cs tokens) (filler : Filler space)
    (follows : Follows (offset + cs.length) tokens (space ++ rest)) :
    ∃ tokens' : List Token, Token.significant tokens' = Token.significant tokens ∧
      lexemes source offset (cs ++ (space ++ rest)) =
        tokens'.map .ok ++ lexemes source (offset + cs.length + space.length) rest := by
  obtain ⟨comments, none, read⟩ := filler.lexemes_append (offset + cs.length) rest
  refine ⟨tokens ++ comments, ?_, ?_⟩
  · rw [Token.significant_append, none, List.append_nil]
  · rw [row.lexemes_append follows, read, List.map_append, List.append_assoc]

theorem comment_of_spelled {old : String} (spelled : Spelled c cs (.comment old)) :
    c = ';' ∧ '\n' ∉ cs := by
  have read := spelled [] (ends_nil _)
  rw [List.append_nil] at read
  rcases scan_token_cases read with ⟨bracket, -⟩ | ⟨semicolon, line⟩ | ⟨a, impossible⟩
  · unfold bracket? at bracket
    split at bracket <;> cases bracket
  · refine ⟨semicolon, fun newline => ?_⟩
    obtain ⟨-, length⟩ := token.inj line
    have whole : cs.takeWhile (· != '\n') = cs :=
      (List.takeWhile_prefix _).eq_of_length (Nat.succ.inj length)
    have inside := List.all_eq_true.mp List.all_takeWhile '\n' (whole.symm ▸ newline)
    simp at inside
  · cases impossible

/-- A comment that reaches to the end of a row takes what is put behind it on its line. -/
theorem Row.extend (row : Row source offset cs tokens) (line : '\n' ∉ text) {t : Token}
    (member : t ∈ tokens) (comment : t.isComment) (last : t.span.stop = offset + cs.length) :
    ∃ tokens', Row source offset (cs ++ text) tokens' ∧
      Token.significant tokens' = Token.significant tokens := by
  induction row with
  | nil => cases member
  | @gap offset c cs tokens gap row ih =>
    rw [add_length_gap] at last
    obtain ⟨tokens', row', kept⟩ := ih member last
    exact ⟨tokens', .gap gap row', kept⟩
  | @token offset c cs behind kind tokens solid spelled ends row ih =>
    rw [add_length_token] at last
    rcases List.mem_cons.mp member with rfl | later
    · have none : behind = [] := by
        apply List.eq_nil_of_length_eq_zero
        dsimp only at last
        omega
      subst none
      cases row
      cases kind with
      | comment old =>
        obtain ⟨rfl, line'⟩ := comment_of_spelled spelled
        have whole : '\n' ∉ cs ++ text := by simp [line, line']
        have row' : Row source offset (';' :: (cs ++ text ++ [])) _ :=
          .token solid (spelled_comment whole) (ends_nil _) .nil
        rw [List.append_nil] at row' ⊢
        exact ⟨_, row', rfl⟩
      | opening | closing | atom => simp [Token.isComment] at comment
    · obtain ⟨tokens', row', kept⟩ := ih later last
      have ended : Ends kind (behind ++ text) := by
        cases behind with
        | nil =>
          cases row
          cases later
        | cons d behind => exact ends.of_head fun c first => first
      have whole := Row.token solid spelled ended row'
      rw [← List.append_assoc] at whole
      refine ⟨_, whole, ?_⟩
      simp only [Token.significant, List.filter_cons] at kept ⊢
      rw [kept]

/-- What is read from a row with a filler behind it, if the row does not end in a comment that has
no end in the filler. -/
theorem Row.lexemes_spaced (row : Row source offset cs tokens) (filler : Filler space)
    (some : space ≠ [])
    (apart : '\n' ∈ space ∨ ∀ t ∈ tokens, t.isComment → t.span.stop ≠ offset + cs.length)
    (rest : List Char) :
    ∃ tokens' : List Token, Token.significant tokens' = Token.significant tokens ∧
      lexemes source offset (cs ++ (space ++ rest)) =
        tokens'.map .ok ++ lexemes source (offset + cs.length + space.length) rest := by
  by_cases touches : ∃ t ∈ tokens, t.isComment ∧ t.span.stop = offset + cs.length
  -- The comment takes the first line of the filler; the line end that stops it ends any token.
  · obtain ⟨t, member, comment, last⟩ := touches
    have newline : '\n' ∈ space := apart.resolve_right fun none => none t member comment last
    obtain ⟨line, others, rfl, unbroken, behind⟩ := filler.exists_line newline
    obtain ⟨tokens', row', kept⟩ := row.extend unbroken member comment last
    have follows : Follows (offset + (cs ++ line).length) tokens' ('\n' :: others ++ rest) :=
      fun t _ _ => ends_newline t.kind (others ++ rest)
    obtain ⟨tokens'', kept', read⟩ := row'.lexemes_filler (.gap rfl behind) follows
    refine ⟨tokens'', kept'.trans kept, ?_⟩
    rw [List.append_assoc, ← List.append_assoc cs, read]
    simp only [List.length_append, Nat.add_assoc]
  -- All other tokens are ended by the separator that the filler starts with.
  · have follows : Follows (offset + cs.length) tokens (space ++ rest) := by
      intro t member last
      have kept : t.kind.isComment = false := by
        rw [← Bool.not_eq_true]
        intro comment
        exact touches ⟨t, member, comment, last⟩
      exact ends_of_wordEnd kept (filler.wordEnd some rest)
    exact row.lexemes_filler filler follows

end Scan

namespace Source

/-- A comment reaches to the end of the text. -/
def EndsInComment (source : Source) : Prop :=
  ∃ t, .ok t ∈ source.lexemes ∧ t.isComment ∧ t.span.stop = source.length

/-- Two texts that can be parsed, with space between them, make a text that can be parsed. Its
forest is the forest of the first text and behind it that of the second one, moved by what stands
in front of it. Only a comment at the end of the first text needs a newline in the space. -/
theorem parse_spaced {first second joined : Source} {forms more : List Node} {space : List Char}
    (filler : Scan.Filler space) (some : space ≠ [])
    (apart : '\n' ∈ space ∨ ¬ first.EndsInComment)
    (parsed : first.parse = .ok forms) (parsed' : second.parse = .ok more)
    (chars : joined.chars = first.chars ++ (space ++ second.chars)) :
    joined.parse = .ok (forms.map (Node.mapSpan (Span.moved joined 0)) ++
      more.map (Node.mapSpan (Span.moved joined (first.length + space.length)))) := by
  obtain ⟨tokens, read, -⟩ := tokensOf_parse parsed
  have here : Scan.lexemes joined 0 first.chars =
      (tokens.map (Token.mapSpan (Span.moved joined 0))).map .ok :=
    lexemes_moved read joined 0
  have apart : '\n' ∈ space ∨ ∀ t ∈ tokens.map (Token.mapSpan (Span.moved joined 0)),
      t.isComment → t.span.stop ≠ 0 + first.chars.length := by
    refine apart.imp_right fun open' t member comment last => ?_
    obtain ⟨t, listed, rfl⟩ := List.mem_map.mp member
    apply open'
    refine ⟨t, read ▸ List.mem_map_of_mem listed, comment, ?_⟩
    exact Nat.add_left_cancel last
  obtain ⟨tokens', kept, whole⟩ :=
    (Scan.row_of_lexemes here).lexemes_spaced filler some apart second.chars
  rw [← chars, ← lexemes_eq, Nat.zero_add] at whole
  exact parse_append here whole kept parsed parsed'

theorem parse_spaced_comment :
    ∃ forms more, (ofText "(a b) ; x" none).parse = .ok forms ∧
      (ofText "[c]" none).parse = .ok more ∧
      (ofText "(a b) ; x ,\n; c\n[c]" none).parse =
        .ok (forms.map (Node.mapSpan (Span.moved (ofText "(a b) ; x ,\n; c\n[c]" none) 0)) ++
          more.map (Node.mapSpan (Span.moved (ofText "(a b) ; x ,\n; c\n[c]" none) 16))) := by
  obtain ⟨forms, parsed⟩ := @parses_of_isOk (ofText "(a b) ; x" none) (by decide +kernel)
  obtain ⟨more, parsed'⟩ := @parses_of_isOk (ofText "[c]" none) (by decide +kernel)
  have filler : Scan.Filler [' ', ',', '\n', ';', ' ', 'c', '\n'] :=
    .gap rfl (.gap rfl (.gap rfl (@Scan.Filler.comment [' ', 'c'] [] (by decide) .nil)))
  have chars : (ofText "(a b) ; x ,\n; c\n[c]" none).chars = (ofText "(a b) ; x" none).chars ++
      ([' ', ',', '\n', ';', ' ', 'c', '\n'] ++ (ofText "[c]" none).chars) := by
    decide +kernel
  have before : (ofText "(a b) ; x" none).length +
      [' ', ',', '\n', ';', ' ', 'c', '\n'].length = 16 := by decide +kernel
  have spaced := parse_spaced filler (List.cons_ne_nil _ _) (.inl (by decide)) parsed parsed' chars
  rw [before] at spaced
  exact ⟨forms, more, parsed, parsed', spaced⟩

end Source
end Lisplet

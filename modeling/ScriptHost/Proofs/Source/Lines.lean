import ScriptHost.Proofs.Source.Bounds

/-!
Where the lines of tokens come from and where they go: they are counted as a text is cut, and read
where a line break ends a statement or forbids to go on, for statements and for faults.
-/

namespace ScriptHost.Source

namespace Grammar

open Parsing

/--
What the parsers make of a line break between two tokens, the second of which the stream goes on
with.
-/
structure Heeds (g : Grammar) (s : Stream) (last next : Token) : Prop where
  statementEnd : endStatement s =
    if next.lexeme = .punct .semicolon then .ok () s.advance
    else if next.lexeme = .punct .closeBrace ∨ next.lexeme = .stop ∨ last.line < next.line then
      .ok () s
    else .error ⟨.unexpected next.lexeme, next.line⟩ s
  afterThrow : ∀ start : Stream, start.lexeme = .keyword .throwWord → start.advance = s →
    g.statementKind last.line start =
      if last.line < next.line then .error ⟨.lineBreakAfterThrow, next.line⟩ s
      else (do
        let value ← g.expression
        endStatement
        pure (.throwing value) : Parsing StmtKind) s
  afterReturn : ∀ start : Stream, start.lexeme = .keyword .returnWord → start.advance = s →
    g.statementKind last.line start =
      if next.lexeme = .punct .semicolon ∨ next.lexeme = .punct .closeBrace ∨
          next.lexeme = .stop ∨ last.line < next.line then
        (do
          endStatement
          pure (.returnWith none) : Parsing StmtKind) s
      else
        (do
          let value ← g.expression
          endStatement
          pure (.returnWith (some value)) : Parsing StmtKind) s
  beforeUpdate : ∀ start e increment, g.callMember start = .ok e s →
    update? next.lexeme = some increment →
    g.postfixed start =
      if last.line < next.line then .ok e s
      else if e.isAssignable then .ok (.update increment false e) s.advance
      else .error ⟨.postfixTarget, next.line⟩ s

variable {g : Grammar} {s : Stream} {last next : Token}

theorem endStatement_eq (s : Stream) :
    endStatement s =
      if s.lexeme = .punct .semicolon then .ok () s.advance
      else if s.lexeme = .punct .closeBrace ∨ s.lexeme = .stop ∨ s.previous < s.line then .ok () s
      else .error ⟨.unexpected s.lexeme, s.line⟩ s := by
  simp only [endStatement, takesPunct, takes, Bind.bind, EStateM.bind]
  by_cases hsemicolon : s.lexeme = .punct .semicolon
  · simp only [hsemicolon, if_true]
    rfl
  · simp only [hsemicolon, if_false, Bool.false_eq_true, EStateM.bind, sees, decide_eq_true_eq]
    by_cases hbrace : s.lexeme = .punct .closeBrace
    · simp only [hbrace, if_true, true_or]
      rfl
    · simp only [hbrace, if_false, false_or, EStateM.bind, atEnd, decide_eq_true_eq]
      by_cases hstop : s.lexeme = .stop
      · simp only [hstop, if_true, true_or]
        rfl
      · simp only [hstop, if_false, false_or, EStateM.bind, afterLineBreak, decide_eq_true_eq]
        split <;> rfl

theorem heeds (hprevious : s.previous = last.line) (htoken : s.token = next) :
    g.Heeds s last next := by
  have hlexeme : s.lexeme = next.lexeme := congrArg Token.lexeme htoken
  have hline : s.line = next.line := congrArg Token.line htoken
  refine ⟨?_, fun start hthrow hadvance => ?_, fun start hreturn hadvance => ?_,
    fun start e increment hcall hupdate => ?_⟩
  · rw [← hlexeme, ← hline, ← hprevious]
    exact endStatement_eq s
  · have hrun : g.statementKind last.line start = g.throwRest last.line s := by
      simp only [statementKind, Bind.bind, EStateM.bind, peek, hthrow, Parsing.advance, hadvance]
    rw [hrun, ← hline]
    show (if last.line < s.line then fail .lineBreakAfterThrow else _ : Parsing StmtKind) s = _
    split
    · rfl
    · rfl
  · have hrun : g.statementKind last.line start = g.returnRest last.line s := by
      simp only [statementKind, Bind.bind, EStateM.bind, peek, hreturn, Parsing.advance, hadvance]
    rw [hrun, ← hline, ← hlexeme]
    simp only [returnRest, Bind.bind, EStateM.bind, sees, atEnd, Parsing.line, Bool.or_eq_true,
      decide_eq_true_eq, or_assoc]
    split
    · rfl
    · simp only [Functor.map, EStateM.map, EStateM.bind]
      cases g.expression s <;> rfl
  · simp only [postfixed, Bind.bind, EStateM.bind, hcall, peek, hlexeme, hupdate, afterLineBreak,
      hprevious, hline, decide_eq_true_eq]
    split
    · rfl
    · cases e.isAssignable with
      | true => rfl
      | false => rw [← hline]; rfl

end Grammar

/-- Between two tokens, a stream knows the line of the first and looks at the second. -/
theorem Stream.Within.between {s : Stream} {c : Setting} (hs : s.Within c)
    {before after : List Token} {last next : Token}
    (htokens : before ++ last :: next :: after = c.tokens) (hleft : s.tokens = next :: after) :
    s.previous = last.line ∧ s.token = next := by
  obtain ⟨taken, htaken, hprevious⟩ := hs.position
  have hbefore : taken = before ++ [last] := by
    rw [← htokens, hleft, List.append_cons before] at htaken
    exact List.append_cancel_right htaken
  refine ⟨hprevious last ?_, ?_⟩
  · rw [hbefore, List.getLast?_concat]
    rfl
  · rw [Stream.token, hleft, List.headD_cons]

/--
A token has the line that it ends on, so the line breaks inside of it count as well as those in
front of it. Only string literals have any inside, and the end of the text is behind all. The
parsers read these lines for line breaks between tokens, for statements and for faults.
-/
theorem lines_counted (source : String) :
    (∀ fault, tokenize source = .error fault →
      ∃ text, text <+: source.toList ∧ fault.line = 1 + newlines text) ∧
    ∀ tokens, tokenize source = .ok tokens →
      (∃ pieces, Cut 1 source.toList pieces ∧
        tokens = pieces.filterMap Piece.token ++ [⟨.stop, 1 + newlines source.toList⟩] ∧
        ∀ before text token after, pieces = before ++ ⟨text, some token⟩ :: after →
          token.line = 1 + newlines (before.flatMap Piece.text) + newlines text ∧
          ((∀ s, token.lexeme ≠ .string s) → newlines text = 0)) ∧
      (∀ fault, parseTokens tokens = .error fault → ∃ token ∈ tokens, token.line = fault.line) ∧
      ∀ loops level depth (s : Stream), nestingLimit ≤ level + depth →
        s.Within ⟨tokens, loops, level⟩ →
        (∀ before last next after, before ++ last :: next :: after = tokens →
          s.tokens = next :: after → (Grammar.ofDepth depth).Heeds s last next) ∧
        (∀ stmt t, (Grammar.ofDepth depth).statement s = .ok stmt t → stmt.line = s.token.line) ∧
        (∀ stmt t, (Grammar.ofDepth depth).loopInit s = .ok (some stmt) t →
          stmt.line = s.token.line) ∧
        ∀ {α : Type} (p : Parsing α) fault t, (Grammar.ofDepth depth).Part p →
          p s = .error fault t →
          t.Within ⟨tokens, loops, level⟩ ∧ fault.line = t.faultLine fault.cause := by
  refine ⟨fun fault => tokenize_faults, fun tokens htokens =>
    ⟨?_, fun fault => parseTokens_fault (tokenize_ended htokens), ?_⟩⟩
  · obtain ⟨pieces, hcut, rfl⟩ := tokenize_cut htokens
    refine ⟨pieces, hcut, rfl, fun before text token after hsplit => ?_⟩
    cases hcut.begins before _ after hsplit with
    | token hspells hline => exact ⟨hline, hspells.oneLine⟩
  · intro loops level depth s hdepth hs
    have hself := Grammar.ofDepth_agree (c := ⟨tokens, loops, level⟩) hdepth hdepth
    refine ⟨fun before last next after hsplit hleft => ?_, fun stmt t hrun => ?_,
      fun stmt t hrun => ?_, fun p fault t hp hrun => ?_⟩
    · obtain ⟨hprevious, hnext⟩ := hs.between hsplit hleft
      exact Grammar.heeds hprevious hnext
    · have hyields := (hself.statementHere hs).2
      rw [hrun] at hyields
      exact hyields.2.2.2.2
    · have hyields := (Grammar.loopInit_parses hself hs).2
      rw [hrun] at hyields
      exact (hyields.2.2 stmt rfl).2
    · have hyields := hp.parses hself hs
      rw [hrun] at hyields
      exact ⟨hyields.1, hyields.2.2⟩

section Examples

/-- The value is lines below the word, so it is not returned. -/
theorem lines_counted_return :
    let source := "/* 1\n2 */ return // 2\n\n'4\\\n5'"
    let tokens : List Token := [⟨.keyword .returnWord, 2⟩, ⟨.string "45", 5⟩, ⟨.stop, 5⟩]
    tokenize source = .ok tokens ∧
      (∃ pieces, Cut 1 source.toList pieces ∧
        tokens = pieces.filterMap Piece.token ++ [⟨.stop, 1 + newlines source.toList⟩]) ∧
      ∃ t, Grammar.full.statementKind 2 (.ofTokens tokens) = .ok (.returnWith none) t := by
  intro source tokens
  have htokens : tokenize source = .ok tokens := by decide +kernel
  obtain ⟨⟨pieces, hcut, hpieces, -⟩, -, hread⟩ := (lines_counted source).2 tokens htokens
  have hstart := Stream.ofTokens_within (tokenize_ended htokens)
  have hbehind := (hstart.advance nofun).1
  have hheeds := (hread 0 0 nestingLimit _ (Nat.le_refl _) hbehind).1 [] _ _ _ rfl rfl
  have hreturn := hheeds.afterReturn (.ofTokens tokens) rfl rfl
  rw [if_pos (by decide)] at hreturn
  exact ⟨htokens, ⟨pieces, hcut, hpieces⟩, _, hreturn⟩

/-- The string begins on the line of the word in front of it, but counts for the next. -/
theorem string_counted_late :
    let source := "throw 'a\\\nb'"
    source.toList = "throw ".toList ++ "'a\\\nb'".toList ∧ newlines "throw ".toList = 0 ∧
      tokenize source =
        .ok [⟨.keyword .throwWord, 1⟩, ⟨.string "ab", 2⟩, ⟨.stop, 2⟩] ∧
      parse source = .error ⟨.lineBreakAfterThrow, 2⟩ := by
  intro source
  have htokens : tokenize source =
      .ok [⟨.keyword .throwWord, 1⟩, ⟨.string "ab", 2⟩, ⟨.stop, 2⟩] := by decide +kernel
  refine ⟨by decide +kernel, by decide +kernel, htokens, ?_⟩
  rw [parse, htokens]
  rfl

end Examples

end ScriptHost.Source

import ScriptHost.Proofs.Source.Parts
import ScriptHost.Proofs.Source.Pieces

/-!
Texts from end to end: cut into tokens, of which the last is the end of the text, and then parsed.
-/

namespace ScriptHost.Source

open Grammar

variable {source : String} {tokens : List Token} {program : Program} {fault : Fault}

theorem ended_concat {front : List Token} {last : Token}
    (hfront : ∀ token ∈ front, token.lexeme ≠ .stop) (hlast : last.lexeme = .stop) :
    Ended (front ++ [last]) := by
  induction front with
  | nil => exact .stop hlast
  | cons first front ih =>
    obtain ⟨hfirst, hrest⟩ := List.forall_mem_cons.1 hfront
    exact .cons hfirst (ih hrest)

theorem Cut.ne_stop {line : Nat} {text : List Char} {pieces : List Piece}
    (h : Cut line text pieces) :
    ∀ token ∈ pieces.filterMap Piece.token, token.lexeme ≠ .stop := by
  intro token htoken
  obtain ⟨piece, hpiece, hsome⟩ := List.mem_filterMap.1 htoken
  obtain ⟨before, after, hsplit⟩ := List.append_of_mem hpiece
  cases h.begins before piece after hsplit with
  | gap _ => exact nomatch hsome
  | token hspells _ =>
    obtain rfl := Option.some.inj hsome
    exact hspells.ne_stop

theorem tokenize_ended (h : tokenize source = .ok tokens) : Ended tokens := by
  obtain ⟨pieces, hcut, rfl⟩ := tokenize_cut h
  exact ended_concat hcut.ne_stop rfl

/-- Parsing begins in front of all tokens, outside of loops and on no level. -/
def Setting.outermost (tokens : List Token) : Setting :=
  ⟨tokens, 0, 0⟩

theorem Stream.ofTokens_within (h : Ended tokens) :
    (Stream.ofTokens tokens).Within (.outermost tokens) := by
  refine ⟨h, ⟨[], rfl, ?_⟩, rfl, rfl, Nat.zero_le _, Nat.zero_le _⟩
  intro token htoken
  rw [List.getLast?_nil, Option.none_or] at htoken
  have hhead : tokens.head? = some token := htoken
  show (tokens.head?.map Token.line).getD 1 = token.line
  rw [hhead, Option.map_some, Option.getD_some]

theorem full_agree (tokens : List Token) : Agree (.outermost tokens) full full :=
  ofDepth_agree (Nat.le_refl _) (Nat.le_refl _)

theorem parseTokens_yields (h : Ended tokens) :
    Yields (.outermost tokens) (.ofTokens tokens)
      (fun program t => t.lexeme = .stop ∧ ∀ stmt ∈ program, stmt.Enclosed 0)
      (full.program (.ofTokens tokens)) :=
  (program_parses (full_agree tokens) (Stream.ofTokens_within h)).2

theorem parseTokens_enclosed (h : Ended tokens) (hp : parseTokens tokens = .ok program) :
    ∀ stmt ∈ program, stmt.Enclosed 0 := by
  have hyields := parseTokens_yields h
  unfold parseTokens at hp
  cases hrun : full.program (.ofTokens tokens) with
  | error fault t => rw [hrun] at hp; exact nomatch hp
  | ok found t =>
    rw [hrun] at hp hyields
    obtain rfl := Except.ok.inj hp
    exact hyields.2.2.2

theorem parseTokens_fault (h : Ended tokens) (hp : parseTokens tokens = .error fault) :
    ∃ token ∈ tokens, token.line = fault.line := by
  have hyields := parseTokens_yields h
  unfold parseTokens at hp
  cases hrun : full.program (.ofTokens tokens) with
  | ok found t => rw [hrun] at hp; exact nomatch hp
  | error found t =>
    rw [hrun] at hp hyields
    obtain rfl := Except.error.inj hp
    obtain ⟨hwithin, -, hline⟩ := hyields
    exact hline ▸ hwithin.faultLine_mem found.cause

theorem parse_eq_ok (h : parse source = .ok program) :
    ∃ tokens, tokenize source = .ok tokens ∧ parseTokens tokens = .ok program := by
  unfold parse at h
  cases htokens : tokenize source with
  | error fault => rw [htokens] at h; exact nomatch h
  | ok tokens =>
    rw [htokens] at h
    exact ⟨tokens, rfl, h⟩

/-- Whatever leaves a loop in a program stands in a loop of the same function. -/
theorem parse_enclosed (h : parse source = .ok program) : ∀ stmt ∈ program, stmt.Enclosed 0 := by
  obtain ⟨tokens, htokens, hprogram⟩ := parse_eq_ok h
  exact parseTokens_enclosed (tokenize_ended htokens) hprogram

end ScriptHost.Source

import ScriptHost.Proofs.Number.Widths
import ScriptHost.Proofs.Source.Texts

/-!
Bounds that cutting and parsing keep to. A text is only cut between its characters. Parsing always
ends, and on its way stays in front of the end of the tokens and above the limit on nesting.
-/

namespace ScriptHost.Source

/-! ## Positions in texts -/

section Positions

variable {source : String} {c : Cursor} {tokens : List Token}

theorem unicodeEscape?_narrow {digits : List Char} {found : Char}
    (h : unicodeEscape? digits = some found) : Narrow digits := by
  intro d hd
  have hascii := ((unicodeEscape?_digits h).2 d hd).2
  exact Char.utf8Size_eq_one_iff.2 (Nat.le_of_lt_succ hascii)

namespace Cursor

/-- The bytes in front of the cursor. -/
def offset (c : Cursor) (source : String) : Nat :=
  source.utf8ByteSize - (String.ofList c.chars).utf8ByteSize

/-- The cursors between the pieces of a text, as far as it is cut. -/
inductive Reached (source : String) : Cursor → Prop
  | start : Reached source (.start source)
  | step {c rest : Cursor} {token : Option Token} :
      Reached source c → c.chars ≠ [] → lexStep c = .ok (token, rest) → Reached source rest

theorem Reached.split (h : c.Reached source) :
    ∃ before, source.toList = before ++ c.chars ∧ c.line = 1 + newlines before := by
  induction h with
  | start => exact ⟨[], rfl, rfl⟩
  | step _ hne hstep ih =>
    obtain ⟨before, hbefore, hline⟩ := ih
    obtain ⟨text, htext, hnext, -⟩ := lexStep_steps hne hstep
    refine ⟨before ++ text, ?_, ?_⟩
    · rw [hbefore, htext, List.append_assoc]
    · rw [hnext, hline, newlines_append, Nat.add_assoc]

theorem offset_eq {before : List Char} (h : source.toList = before ++ c.chars) :
    c.offset source = (String.ofList before).utf8ByteSize := by
  have hsource : source = String.ofList before ++ String.ofList c.chars := by
    rw [← String.ofList_append, ← h, String.ofList_toList]
  unfold offset
  rw [congrArg String.utf8ByteSize hsource, String.utf8ByteSize_append, Nat.add_sub_cancel]

theorem split_drop {before : List Char} (h : source.toList = before ++ c.chars) (n : Nat) :
    source.toList = (before ++ c.chars.take n) ++ (c.drop n).chars := by
  rw [h, List.append_assoc, Cursor.drop, List.take_append_drop]

theorem offset_drop {before : List Char} (h : source.toList = before ++ c.chars) (n : Nat) :
    (c.drop n).offset source =
      c.offset source + (String.ofList (c.chars.take n)).utf8ByteSize := by
  rw [offset_eq h, offset_eq (split_drop h n), String.ofList_append, String.utf8ByteSize_append]

theorem offset_isValid {before : List Char} (h : source.toList = before ++ c.chars) :
    String.Pos.Raw.IsValid source ⟨c.offset source⟩ := by
  rw [← String.ofList_toList (s := source), h, String.Pos.Raw.isValid_ofList]
  refine ⟨before.length, ?_⟩
  rw [List.take_left, ← h, String.ofList_toList]
  exact offset_eq h

theorem offset_escape {before : List Char} (h : source.toList = before ++ c.chars) {n : Nat}
    {found : Char} (hfound : unicodeEscape? ((c.drop n).chars.take 4) = some found) :
    (c.drop (n + 4)).offset source = (c.drop n).offset source + 4 := by
  have hdrop : c.drop (n + 4) = (c.drop n).drop 4 := by simp [Cursor.drop, List.drop_drop]
  rw [hdrop, offset_drop (split_drop h n), (unicodeEscape?_narrow hfound).utf8ByteSize,
    (unicodeEscape?_digits hfound).1]

theorem offset_punct {before : List Char} (h : source.toList = before ++ c.chars) {p : Punct}
    (hp : p.chars <+: c.chars) :
    (c.drop p.chars.length).offset source = c.offset source + p.text.utf8ByteSize := by
  rw [offset_drop h, ← List.prefix_iff_eq_take.1 hp, Punct.text]

end Cursor

theorem Cut.line_le {line : Nat} {text : List Char} {pieces : List Piece}
    (h : Cut line text pieces) {token : Token} (htoken : token ∈ pieces.filterMap Piece.token) :
    token.line ≤ line + newlines text := by
  obtain ⟨piece, hpiece, hsome⟩ := List.mem_filterMap.1 htoken
  obtain ⟨before, after, hsplit⟩ := List.append_of_mem hpiece
  cases h.begins before piece after hsplit with
  | gap _ => exact nomatch hsome
  | token _ hline =>
    obtain rfl := Option.some.inj hsome
    rw [hline, ← h.text, hsplit, List.flatMap_append, List.flatMap_cons, newlines_append,
      newlines_append]
    dsimp only
    omega

theorem tokenize_line_le (h : tokenize source = .ok tokens) :
    ∀ token ∈ tokens, token.line ≤ 1 + newlines source.toList := by
  obtain ⟨pieces, hcut, rfl⟩ := tokenize_cut h
  intro token htoken
  rcases List.mem_append.1 htoken with htoken | htoken
  · exact hcut.line_le htoken
  · obtain rfl := List.mem_singleton.1 htoken
    exact Nat.le_refl _

theorem tokenize_fault_le {fault : Fault} (h : tokenize source = .error fault) :
    fault.line ≤ 1 + newlines source.toList := by
  obtain ⟨text, ⟨rest, hrest⟩, hline⟩ := tokenize_faults h
  rw [hline, ← hrest, newlines_append]
  omega

end Positions

/-! ## Parts and loops of the grammar -/

namespace Grammar

open Parsing

/-- The parsers that a program is parsed by, down to those of single tokens. -/
inductive Part (g : Grammar) : {α : Type} → Parsing α → Prop
  | takes {lexeme : Lexeme} : lexeme ≠ .stop → Part g (takes lexeme)
  | expect {p : Punct} : Part g (expect p)
  | expectName : Part g expectName
  | statement : Part g g.statement
  | assignment : Part g g.assignment
  | unary : Part g g.unary
  | expression : Part g g.expression
  | blockRest : Part g g.blockRest
  | block : Part g g.block
  | params : Part g (sequence .closeParen expectName)
  | functionRest {named : Bool} : Part g (g.functionRest named)
  | propertyName : Part g propertyName
  | key : Part g key
  | entry : Part g g.entry
  | entries : Part g (sequence .closeBrace g.entry)
  | items {close : Punct} : Part g (sequence close g.assignment)
  | parenthesized : Part g g.parenthesized
  | primary : Part g g.primary
  | arguments : Part g g.arguments
  | chain {calls : Bool} {e : Expr} : e.Enclosed → Part g (g.chain calls e)
  | callee : Part g g.callee
  | construction : Part g g.construction
  | head : Part g g.head
  | callMember : Part g g.callMember
  | postfixed : Part g g.postfixed
  | unaryBody : Part g g.unaryBody
  | ranked {ranks : List Rank} : Part g (ranked g.unary ranks)
  | binary : Part g g.binary
  | conjunction : Part g g.conjunction
  | disjunction : Part g g.disjunction
  | conditional : Part g g.conditional
  | assignmentBody : Part g g.assignmentBody
  | endStatement : Part g endStatement
  | declarator {binder : Binder} : Part g (g.declarator binder)
  | declaration {binder : Binder} : Part g (g.declaration binder)
  | condition : Part g g.condition
  | loopBody : Part g g.loopBody
  | branch : Part g g.branch
  | whileLoop : Part g g.whileLoop
  | doLoop : Part g g.doLoop
  | loopInit : Part g g.loopInit
  | optionalBefore {close : Punct} : Part g (g.optionalBefore close)
  | forLoop : Part g g.forLoop
  | catchParam : Part g catchParam
  | attempt : Part g g.attempt
  | returnRest {line : Nat} : Part g (g.returnRest line)
  | throwRest {line : Nat} : Part g (g.throwRest line)
  | expressionStatement : Part g g.expressionStatement
  | statementBody : Part g g.statementBody
  | program : Part g g.program

/-- The loops that parsers go round in, with what each begins with. -/
inductive Loop (g : Grammar) : {σ α : Type} → (σ → Parsing (σ ⊕ α)) → σ → Prop
  | block : Loop g g.blockStep #[]
  | params : Loop g (sequenceStep .closeParen expectName) #[]
  | items {close : Punct} : Loop g (sequenceStep close g.assignment) #[]
  | entries : Loop g (sequenceStep .closeBrace g.entry) #[]
  | chain {calls : Bool} {e : Expr} : e.Enclosed → Loop g (g.link calls) e
  | ranked {rank : Rank} {ranks : List Rank} {e : Expr} :
      e.Enclosed → Loop g (binaryStep rank (ranked g.unary ranks)) e
  | conjunction {e : Expr} : e.Enclosed → Loop g (logicalStep .and g.binary) e
  | disjunction {e : Expr} : e.Enclosed → Loop g (logicalStep .or g.conjunction) e
  | declaration {binder : Binder} : Loop g (g.declarationStep binder) #[]
  | program : Loop g g.programStep #[]

section Agreeing

variable {g g' : Grammar} {c : Setting} {s : Stream} (hg : Agree c g g') (hs : s.Within c)

include hg hs

theorem Part.parses {α : Type} {p : Parsing α} (hp : g.Part p) :
    Yields c s (fun _ _ => True) (p s) := by
  have hany : ∀ {β : Type} {q q' : Parsing β} {Q : β → Stream → Prop}, Parses c q q' s Q →
      Yields c s (fun _ _ => True) (q s) := fun h => (h.mono fun _ _ _ _ => trivial).2
  cases hp with
  | takes hne => exact hany (.takes hs hne)
  | expect => exact hany (.expect hs _)
  | expectName => exact hany (.expectName hs)
  | statement => exact hany (hg.statementHere hs)
  | assignment => exact hany (hg.assignmentHere hs)
  | unary => exact hany (hg.unaryHere hs)
  | expression => exact hany (expression_parses hg hs)
  | blockRest => exact hany (blockRest_parses hg hs)
  | block => exact hany (block_parses hg hs)
  | params => exact hany (sequence_parses (fun _ hs => .expectName hs) hs)
  | functionRest => exact hany (functionRest_parses hg _ hs)
  | propertyName => exact hany (propertyName_parses hs)
  | key => exact hany (key_parses hs)
  | entry => exact hany (entry_parses hg hs)
  | entries => exact hany (sequence_parses (fun _ hs => entry_parses hg hs) hs)
  | items => exact hany (sequence_parses (fun _ hs => hg.assignmentHere hs) hs)
  | parenthesized => exact hany (parenthesized_parses hg hs)
  | primary => exact hany (primary_parses hg hs)
  | arguments => exact hany (arguments_parses hg hs)
  | chain he => exact hany (chain_parses hg _ he hs)
  | callee => exact hany (callee_parses hg hs)
  | construction => exact hany (construction_parses hg hs)
  | head => exact hany (head_parses hg hs)
  | callMember => exact hany (callMember_parses hg hs)
  | postfixed => exact hany (postfixed_parses hg hs)
  | unaryBody => exact hany (unaryBody_parses hg hs)
  | ranked => exact hany (ranked_parses (fun _ hs => hg.unaryHere hs) _ hs)
  | binary => exact hany (binary_parses hg hs)
  | conjunction => exact hany (conjunction_parses hg hs)
  | disjunction => exact hany (disjunction_parses hg hs)
  | conditional => exact hany (conditional_parses hg hs)
  | assignmentBody => exact hany (assignmentBody_parses hg hs)
  | endStatement => exact hany (endStatement_parses hs)
  | declarator => exact hany (declarator_parses hg _ hs)
  | declaration => exact hany (declaration_parses hg _ hs)
  | condition => exact hany (condition_parses hg hs)
  | loopBody => exact hany (loopBody_parses hg hs)
  | branch => exact hany (branch_parses hg hs)
  | whileLoop => exact hany (whileLoop_parses hg hs)
  | doLoop => exact hany (doLoop_parses hg hs)
  | loopInit => exact hany (loopInit_parses hg hs)
  | optionalBefore => exact hany (optionalBefore_parses hg _ hs)
  | forLoop => exact hany (forLoop_parses hg hs)
  | catchParam => exact hany (catchParam_parses hs)
  | attempt => exact hany (attempt_parses hg hs)
  | returnRest => exact hany (returnRest_parses hg _ hs)
  | throwRest => exact hany (throwRest_parses hg _ hs)
  | expressionStatement => exact hany (expressionStatement_parses hg hs)
  | statementBody => exact hany (statementBody_parses hg hs)
  | program => exact hany (program_parses hg hs)

theorem Loop.ends {σ α : Type} {step : σ → Parsing (σ ⊕ α)} {seed : σ} (hl : g.Loop step seed) :
    Ends step seed s (repeatUntil step seed s) := by
  cases hl with
  | block => exact (blockStep_advances hg).ends hs nofun
  | params => exact (sequenceStep_advances fun _ hs => .expectName hs).ends hs nofun
  | items => exact (sequenceStep_advances fun _ hs => hg.assignmentHere hs).ends hs nofun
  | entries => exact (sequenceStep_advances fun _ hs => entry_parses hg hs).ends hs nofun
  | chain he => exact (link_advances hg _).ends hs he
  | ranked he =>
    exact (binaryStep_advances (fun _ hs =>
      ranked_parses (fun _ hs => hg.unaryHere hs) _ hs) _).ends hs he
  | conjunction he => exact (logicalStep_advances (fun _ hs => binary_parses hg hs) _).ends hs he
  | disjunction he =>
    exact (logicalStep_advances (fun _ hs => conjunction_parses hg hs) _).ends hs he
  | declaration => exact (declarationStep_advances hg _).ends hs nofun
  | program => exact (programStep_advances hg).ends hs nofun

end Agreeing

/--
The parsers of the grammar keep to their bounds, from anywhere in the tokens and at any level. The
bounds that their rounds and levels are given are never met.
-/
structure Bounded (g : Grammar) (c : Setting) : Prop where
  levels : ∀ s, s.Within c → g.statement s = nested g.statementBody s ∧
    g.assignment s = nested g.assignmentBody s ∧ g.unary s = nested g.unaryBody s
  parts : ∀ {α : Type} (p : Parsing α), g.Part p → ∀ s, s.Within c →
    Yields c s (fun _ _ => True) (p s)
  loops : ∀ {σ α : Type} (step : σ → Parsing (σ ⊕ α)) (seed : σ), g.Loop step seed →
    ∀ s, s.Within c → Ends step seed s (repeatUntil step seed s)
  progress : ∀ s stmt t, s.Within c → g.statement s = .ok stmt t →
    t.tokens.length < s.tokens.length

theorem ofDepth_bounded {c : Setting} {depth : Nat} (h : nestingLimit ≤ c.level + depth) :
    (ofDepth depth).Bounded c := by
  have hself : Agree c (ofDepth depth) (ofDepth depth) := ofDepth_agree h h
  have hnext : Agree c (ofDepth depth) (ofDepth (depth + 1)) := ofDepth_agree h (by omega)
  refine ⟨fun s hs => ⟨?_, ?_, ?_⟩, fun p hp s hs => hp.parses hself hs,
    fun step seed hl s hs => hl.ends hself hs, fun s stmt t hs hrun => ?_⟩
  · exact (hnext.statementHere hs).1.symm
  · exact (hnext.assignmentHere hs).1.symm
  · exact (hnext.unaryHere hs).1.symm
  · have hyields := (hself.statementHere hs).2
    rw [hrun] at hyields
    exact hyields.2.2.1

end Grammar

/-! ## Whole texts -/

/--
A text is cut on the bounds of characters, into tokens that the end of the text closes, or a fault
is found. Any such tokens are parsed, in as many rounds and levels as it takes, to a program or a
fault. Every part leaves the parser within the tokens, in as many loops and as deep as before, and
not beyond the limit on nesting.
-/
theorem bounds_kept (source : String) (hlines : newlines source.toList + 1 < 2 ^ 32) :
    (∀ c, Cursor.Reached source c → c.line < 2 ^ 32 ∧
      (∀ n, String.Pos.Raw.IsValid source ⟨(c.drop n).offset source⟩) ∧
      (∀ n found, unicodeEscape? ((c.drop n).chars.take 4) = some found →
        (c.drop (n + 4)).offset source = (c.drop n).offset source + 4) ∧
      ∀ p : Punct, p.chars <+: c.chars →
        (c.drop p.chars.length).offset source = c.offset source + p.text.utf8ByteSize) ∧
    (match tokenize source with
      | .error fault => fault.line < 2 ^ 32
      | .ok tokens => Ended tokens ∧ ∀ token ∈ tokens, token.line < 2 ^ 32) ∧
    ∀ tokens, Ended tokens →
      (Stream.ofTokens tokens).Within (.outermost tokens) ∧
      Yields (.outermost tokens) (.ofTokens tokens) (fun _ t => t.lexeme = .stop)
        (Grammar.full.program (.ofTokens tokens)) ∧
      ∀ loops level depth, nestingLimit ≤ level + depth →
        (Grammar.ofDepth depth).Bounded ⟨tokens, loops, level⟩ := by
  refine ⟨fun c hc => ?_, ?_, fun tokens htokens => ⟨?_, ?_, fun loops level depth hdepth => ?_⟩⟩
  · obtain ⟨before, hbefore, hline⟩ := hc.split
    refine ⟨?_, fun n => ?_, fun n found => ?_, fun p => ?_⟩
    · rw [hbefore, newlines_append] at hlines
      omega
    · exact Cursor.offset_isValid (Cursor.split_drop hbefore n)
    · exact Cursor.offset_escape hbefore
    · exact Cursor.offset_punct hbefore
  · cases htokens : tokenize source with
    | error fault =>
      have hfault := tokenize_fault_le htokens
      exact show fault.line < 2 ^ 32 by omega
    | ok tokens =>
      refine ⟨tokenize_ended htokens, fun token htoken => ?_⟩
      have hline := tokenize_line_le htokens token htoken
      omega
  · exact Stream.ofTokens_within htokens
  · exact ((Grammar.program_parses (full_agree tokens) (Stream.ofTokens_within htokens)).mono
      fun program t _ h => h.1).2
  · exact Grammar.ofDepth_bounded hdepth

section Examples

/-- An escape stands behind a character of two bytes. -/
theorem bounds_kept_escape :
    let source := "'é\\u00e9' +\n1"
    newlines source.toList + 1 < 2 ^ 32 ∧
      (∃ tokens, tokenize source = .ok tokens ∧ Ended tokens) ∧
      String.Pos.Raw.IsValid source ⟨((Cursor.start source).drop 2).offset source⟩ ∧
      ((Cursor.start source).drop 8).offset source = 9 := by
  intro source
  have hlines : newlines source.toList + 1 < 2 ^ 32 := by decide +kernel
  have htokenizes : (tokenize source).isOk = true := by decide +kernel
  obtain ⟨hcursors, hcut, -⟩ := bounds_kept source hlines
  refine ⟨hlines, ?_, (hcursors _ .start).2.1 2, ?_⟩
  · cases htokens : tokenize source with
    | error fault => rw [htokens] at htokenizes; exact nomatch htokenizes
    | ok tokens => rw [htokens] at hcut; exact ⟨tokens, rfl, hcut.1⟩
  · rw [(hcursors _ .start).2.2.1 4 'é' (by decide +kernel)]
    decide +kernel

end Examples

end ScriptHost.Source

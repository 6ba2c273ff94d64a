import ScriptHost.Proofs.Source.Enclosure
import ScriptHost.Proofs.Source.Parses

/-!
The parsers of expressions and statements, one after another. What leaves a loop is parsed only
inside of one, because the count of loops starts anew in a function and comes back behind it.
-/

namespace ScriptHost.Source

open Parsing

theorem forall_mem_push {α : Type} {P : α → Prop} {found : Array α} {a : α}
    (h : ∀ b ∈ found, P b) (ha : P a) : ∀ b ∈ found.push a, P b := by
  intro b hb
  rcases Array.mem_push.1 hb with hb | rfl
  · exact h b hb
  · exact ha

theorem BinaryOp.ofLexeme?_stop (rank : Rank) : ofLexeme? rank .stop = none := by
  cases rank <;> rfl

namespace Grammar

/-- Two grammars that do the same, of which what is to be shown of all parts is known already. -/
structure Agree (c : Setting) (g g' : Grammar) : Prop where
  statement : ∀ loops s, s.Within { c with loops } →
    Parses { c with loops } g.statement g'.statement s
      (Took s fun stmt => stmt.Enclosed loops ∧ stmt.line = s.line)
  assignment : ∀ loops s, s.Within { c with loops } →
    Parses { c with loops } g.assignment g'.assignment s (Took s Expr.Enclosed)
  unary : ∀ loops s, s.Within { c with loops } →
    Parses { c with loops } g.unary g'.unary s (Took s Expr.Enclosed)

section Parts

variable {g g' : Grammar} {c : Setting} {s : Stream}

/-! ## Lists of parts -/

section Sequence

variable {α : Type} {P : α → Prop} {item item' : Parsing α} {close : Punct}
variable (hitem : ∀ s, s.Within c → Parses c item item' s (Took s P))

include hitem

theorem sequenceStep_advances :
    Advances c (sequenceStep close item) (sequenceStep close item') (fun found => ∀ a ∈ found, P a)
      (fun items _ => ∀ a ∈ items, P a) := by
  intro found s hs hfound
  refine .taking hs nofun (fun t ht _ => .pure ht ?_) ?_
  · simpa [Round] using hfound
  refine (hitem s hs).bind fun a t ht _ htook => ?_
  have hpush := forall_mem_push hfound htook.2
  refine .taking ht nofun (fun u hu hlt => .pure hu ⟨by have := htook.1; omega, hpush⟩) ?_
  refine .expecting ht fun u hu _ => .pure hu ?_
  simpa [Round] using hpush

theorem sequence_parses (hs : s.Within c) :
    Parses c (sequence close item) (sequence close item') s (fun items _ => ∀ a ∈ items, P a) :=
  (sequenceStep_advances hitem).repeatUntil hs nofun

end Sequence

variable (hg : Agree c g g') (hs : s.Within c)

include hg

theorem Agree.looped : Agree { c with loops := c.loops + 1 } g g' :=
  ⟨hg.statement, hg.assignment, hg.unary⟩

theorem Agree.inside : Agree { c with loops := 0 } g g' :=
  ⟨hg.statement, hg.assignment, hg.unary⟩

theorem Agree.statementHere (hs : s.Within c) :
    Parses c g.statement g'.statement s
      (Took s fun stmt => stmt.Enclosed c.loops ∧ stmt.line = s.line) :=
  hg.statement c.loops s hs

theorem Agree.assignmentHere (hs : s.Within c) :
    Parses c g.assignment g'.assignment s (Took s Expr.Enclosed) :=
  hg.assignment c.loops s hs

theorem Agree.unaryHere (hs : s.Within c) :
    Parses c g.unary g'.unary s (Took s Expr.Enclosed) :=
  hg.unary c.loops s hs

theorem expression_parses (hs : s.Within c) :
    Parses c g.expression g'.expression s (Took s Expr.Enclosed) :=
  hg.assignmentHere hs

theorem blockStep_advances :
    Advances c g.blockStep g'.blockStep (fun found => ∀ stmt ∈ found, stmt.Enclosed c.loops)
      (fun body _ => ∀ stmt ∈ body, stmt.Enclosed c.loops) := by
  intro found s hs hfound
  refine .taking hs nofun (fun t ht _ => .pure ht ?_) ?_
  · simpa [Round] using hfound
  refine .ending (fun _ => .unexpected hs) fun _ => ?_
  refine (hg.statementHere hs).bind fun stmt t ht _ htook => ?_
  exact .pure ht ⟨htook.1, forall_mem_push hfound htook.2.1⟩

theorem blockRest_parses (hs : s.Within c) :
    Parses c g.blockRest g'.blockRest s (fun body _ => ∀ stmt ∈ body, stmt.Enclosed c.loops) :=
  (blockStep_advances hg).repeatUntil hs nofun

theorem block_parses (hs : s.Within c) :
    Parses c g.block g'.block s (Took s fun body => ∀ stmt ∈ body, stmt.Enclosed c.loops) := by
  refine .expecting hs fun t ht hlt => ?_
  exact (blockRest_parses hg ht).mono fun body u hle hbody => ⟨by omega, hbody⟩

/-! ## Expressions -/

theorem functionRest_parses (named : Bool) (hs : s.Within c) :
    Parses c (g.functionRest named) (g'.functionRest named) s (Took s Function.Enclosed) := by
  have hrest : ∀ name t, t.Within c → t.tokens.length ≤ s.tokens.length →
      Parses c (do
          expect .openParen
          let params ← sequence .closeParen expectName
          let body ← inFunction g.block
          pure (Function.mk name params body))
        (do
          expect .openParen
          let params ← sequence .closeParen expectName
          let body ← inFunction g'.block
          pure (Function.mk name params body)) t (Took s Function.Enclosed) := by
    intro name t ht hle
    refine .expecting ht fun u hu hlt => ?_
    refine (sequence_parses (fun s hs => .expectName hs) hu).bind fun params v hv hle' _ => ?_
    refine (Parses.inFunction (fun s hs => block_parses hg.inside hs) hv).bind
      fun body w hw hle'' htook => ?_
    exact .pure hw ⟨by omega, .mk htook.2⟩
  refine .peeking ?_
  cases hnext : s.lexeme with
  | name x =>
    refine .advancing hs (hnext ▸ nofun) fun t ht hlt => ?_
    exact hrest (some x) t ht (Nat.le_of_lt hlt)
  | _ =>
    cases named with
    | true => exact .bind (Q := fun _ _ => False) (.fail hs rfl) fun _ _ _ _ h => h.elim
    | false => exact hrest none s hs (Nat.le_refl _)

omit hg in
theorem propertyName_parses (hs : s.Within c) :
    Parses c propertyName propertyName s (Took s fun _ => True) := by
  refine .peeking ?_
  cases hnext : s.lexeme with
  | name x => exact .advancing hs (hnext ▸ nofun) fun t ht hlt => .pure ht ⟨hlt, trivial⟩
  | keyword k => exact .advancing hs (hnext ▸ nofun) fun t ht hlt => .pure ht ⟨hlt, trivial⟩
  | _ => exact .unexpected hs

omit hg in
theorem key_parses (hs : s.Within c) : Parses c key key s (Took s fun _ => True) := by
  refine .peeking ?_
  cases hnext : s.lexeme with
  | string x => exact .advancing hs (hnext ▸ nofun) fun t ht hlt => .pure ht ⟨hlt, trivial⟩
  | number x => exact .advancing hs (hnext ▸ nofun) fun t ht hlt => .pure ht ⟨hlt, trivial⟩
  | _ => exact propertyName_parses hs

theorem entry_parses (hs : s.Within c) :
    Parses c g.entry g'.entry s (Took s fun entry => entry.2.Enclosed) := by
  refine (key_parses hs).bind fun key t ht _ htook => ?_
  have hlt := htook.1
  refine .taking ht nofun (fun u hu hlt' => ?_) (.pure ht ⟨hlt, .name⟩)
  refine (hg.assignmentHere hu).bind fun value v hv hle hvalue => ?_
  exact .pure hv ⟨by omega, hvalue.2⟩

theorem parenthesized_parses (hs : s.Within c) :
    Parses c g.parenthesized g'.parenthesized s (Took s Expr.Enclosed) := by
  refine (expression_parses hg hs).bind fun inner t ht _ hinner => ?_
  have hlt := hinner.1
  exact .expecting ht fun u hu hlt' => .pure hu ⟨by omega, hinner.2⟩

theorem primary_parses (hs : s.Within c) :
    Parses c g.primary g'.primary s (Took s Expr.Enclosed) := by
  have hleaf : ∀ {e : Expr}, s.lexeme ≠ .stop → e.Enclosed →
      Parses c (advance >>= fun _ => pure e) (advance >>= fun _ => pure e) s
        (Took s Expr.Enclosed) :=
    fun hne he => .advancing hs hne fun t ht hlt => .pure ht ⟨hlt, he⟩
  have hfunction : s.lexeme ≠ .stop →
      Parses c (advance >>= fun _ => g.functionRest false >>= fun f => pure (.function f))
        (advance >>= fun _ => g'.functionRest false >>= fun f => pure (.function f)) s
        (Took s Expr.Enclosed) := by
    intro hne
    refine .advancing hs hne fun t ht hlt => ?_
    refine (functionRest_parses hg false ht).bind fun f u hu hle hf => ?_
    exact .pure hu ⟨by omega, .function hf.2⟩
  have hparen : s.lexeme ≠ .stop →
      Parses c (advance >>= fun _ => g.parenthesized) (advance >>= fun _ => g'.parenthesized) s
        (Took s Expr.Enclosed) := by
    intro hne
    refine .advancing hs hne fun t ht hlt => ?_
    exact (parenthesized_parses hg ht).mono fun e u hle he => ⟨by omega, he.2⟩
  have harray : s.lexeme ≠ .stop →
      Parses c (advance >>= fun _ => sequence .closeBracket g.assignment >>= fun items =>
          pure (.array items))
        (advance >>= fun _ => sequence .closeBracket g'.assignment >>= fun items =>
          pure (.array items)) s (Took s Expr.Enclosed) := by
    intro hne
    refine .advancing hs hne fun t ht hlt => ?_
    refine (sequence_parses (fun s hs => hg.assignmentHere hs) ht).bind
      fun items u hu hle hitems => ?_
    exact .pure hu ⟨by omega, .array hitems⟩
  have hobject : s.lexeme ≠ .stop →
      Parses c (advance >>= fun _ => sequence .closeBrace g.entry >>= fun entries =>
          pure (.object entries))
        (advance >>= fun _ => sequence .closeBrace g'.entry >>= fun entries =>
          pure (.object entries)) s (Took s Expr.Enclosed) := by
    intro hne
    refine .advancing hs hne fun t ht hlt => ?_
    refine (sequence_parses (fun s hs => entry_parses hg hs) ht).bind
      fun entries u hu hle hentries => ?_
    exact .pure hu ⟨by omega, .object hentries⟩
  refine .peeking ?_
  cases hnext : s.lexeme with
  | number x => exact hleaf (hnext ▸ nofun) .number
  | string x => exact hleaf (hnext ▸ nofun) .string
  | name x => exact hleaf (hnext ▸ nofun) .name
  | keyword k =>
    have hne : s.lexeme ≠ .stop := hnext ▸ nofun
    cases k with
    | trueWord => exact hleaf hne .bool
    | falseWord => exact hleaf hne .bool
    | nullWord => exact hleaf hne .null
    | undefinedWord => exact hleaf hne .undefined
    | thisWord => exact hleaf hne .this
    | functionWord => exact hfunction hne
    | _ => exact .unexpected hs
  | punct p =>
    have hne : s.lexeme ≠ .stop := hnext ▸ nofun
    cases p with
    | openParen => exact hparen hne
    | openBracket => exact harray hne
    | openBrace => exact hobject hne
    | _ => exact .unexpected hs
  | stop => exact .unexpected hs

theorem arguments_parses (hs : s.Within c) :
    Parses c g.arguments g'.arguments s (Took s fun args => ∀ e ∈ args, e.Enclosed) := by
  refine .expecting hs fun t ht hlt => ?_
  exact (sequence_parses (fun s hs => hg.assignmentHere hs) ht).mono
    fun args u hle hargs => ⟨by omega, hargs⟩

theorem link_advances (calls : Bool) :
    Advances c (g.link calls) (g'.link calls) Expr.Enclosed (fun e _ => e.Enclosed) := by
  intro e s hs he
  refine .taking hs nofun (fun t ht hlt => ?_) (.taking hs nofun (fun t ht hlt => ?_) ?_)
  · refine (propertyName_parses ht).bind fun property u hu hle _ => ?_
    exact .pure hu ⟨by omega, .member he⟩
  · refine (expression_parses hg ht).bind fun key u hu hle hkey => ?_
    exact .expecting hu fun v hv hlt' => .pure hv ⟨by omega, .index he hkey.2⟩
  · refine .seeing fun found => ?_
    cases calls && found with
    | false => exact .pure hs he
    | true =>
      refine (arguments_parses hg hs).bind fun args t ht _ hargs => ?_
      exact .pure ht ⟨hargs.1, .call he hargs.2⟩

theorem chain_parses (calls : Bool) {e : Expr} (he : e.Enclosed) (hs : s.Within c) :
    Parses c (g.chain calls e) (g'.chain calls e) s (fun e _ => e.Enclosed) :=
  (link_advances hg calls).repeatUntil hs he

theorem callee_parses (hs : s.Within c) :
    Parses c g.callee g'.callee s (Took s Expr.Enclosed) := by
  refine (primary_parses hg hs).bind fun first t ht _ hfirst => ?_
  have hlt := hfirst.1
  exact (chain_parses hg false hfirst.2 ht).mono fun e u hle he => ⟨by omega, he⟩

theorem construction_parses (hs : s.Within c) :
    Parses c g.construction g'.construction s (Took s Expr.Enclosed) := by
  refine (callee_parses hg hs).bind fun callee t ht _ hcallee => ?_
  have hlt := hcallee.1
  refine .seeing fun found => ?_
  cases found with
  | true =>
    refine (arguments_parses hg ht).bind fun args u hu hle hargs => ?_
    exact .pure hu ⟨by omega, .construct hcallee.2 hargs.2⟩
  | false => exact .pure ht ⟨hlt, .construct hcallee.2 nofun⟩

theorem head_parses (hs : s.Within c) : Parses c g.head g'.head s (Took s Expr.Enclosed) := by
  refine .taking hs nofun (fun t ht hlt => ?_) (primary_parses hg hs)
  exact (construction_parses hg ht).mono fun e u hle he => ⟨by omega, he.2⟩

theorem callMember_parses (hs : s.Within c) :
    Parses c g.callMember g'.callMember s (Took s Expr.Enclosed) := by
  refine (head_parses hg hs).bind fun first t ht _ hfirst => ?_
  have hlt := hfirst.1
  exact (chain_parses hg true hfirst.2 ht).mono fun e u hle he => ⟨by omega, he⟩

theorem postfixed_parses (hs : s.Within c) :
    Parses c g.postfixed g'.postfixed s (Took s Expr.Enclosed) := by
  refine (callMember_parses hg hs).bind fun e t ht _ he => ?_
  refine .peeking ?_
  cases hupdate : update? t.lexeme with
  | none => exact .pure ht he
  | some increment =>
    have hne : t.lexeme ≠ .stop := fun h => by rw [h] at hupdate; exact nomatch hupdate
    refine .breaking fun found => ?_
    cases found with
    | true => exact .pure ht he
    | false =>
      cases hassign : e.isAssignable with
      | false => exact .fail ht rfl
      | true =>
        have hlt := he.1
        exact .advancing ht hne fun u hu hlt' => .pure hu ⟨by omega, .update he.2⟩

theorem unaryBody_parses (hs : s.Within c) :
    Parses c g.unaryBody g'.unaryBody s (Took s Expr.Enclosed) := by
  refine .peeking ?_
  cases hunary : unary? s.lexeme with
  | some op =>
    have hne : s.lexeme ≠ .stop := fun h => by rw [h] at hunary; exact nomatch hunary
    refine .advancing hs hne fun t ht hlt => ?_
    refine (hg.unaryHere ht).bind fun operand u hu hle hoperand => ?_
    exact .pure hu ⟨by omega, .unary hoperand.2⟩
  | none =>
    cases hupdate : update? s.lexeme with
    | none => exact postfixed_parses hg hs
    | some increment =>
      have hne : s.lexeme ≠ .stop := fun h => by rw [h] at hupdate; exact nomatch hupdate
      refine .advancing hs hne fun t ht hlt => ?_
      refine (hg.unaryHere ht).bind fun target u hu hle htarget => ?_
      cases hassign : target.isAssignable with
      | false => exact .fail hu rfl
      | true => exact .pure hu ⟨by omega, .update htarget.2⟩

section Operands

variable {operand operand' : Parsing Expr}
variable (hoperand : ∀ s, s.Within c → Parses c operand operand' s (Took s Expr.Enclosed))

omit hg
include hoperand

theorem binaryStep_advances (rank : Rank) :
    Advances c (binaryStep rank operand) (binaryStep rank operand') Expr.Enclosed
      (fun e _ => e.Enclosed) := by
  intro left s hs hleft
  refine .peeking ?_
  cases hop : BinaryOp.ofLexeme? rank s.lexeme with
  | none => exact .pure hs hleft
  | some op =>
    have hne : s.lexeme ≠ .stop := fun h => by
      rw [h, BinaryOp.ofLexeme?_stop] at hop
      exact nomatch hop
    refine .advancing hs hne fun t ht hlt => ?_
    refine (hoperand t ht).bind fun right u hu hle hright => ?_
    exact .pure hu ⟨by omega, .binary hleft hright.2⟩

theorem logicalStep_advances (op : LogicalOp) :
    Advances c (logicalStep op operand) (logicalStep op operand') Expr.Enclosed
      (fun e _ => e.Enclosed) := by
  intro left s hs hleft
  refine .taking hs nofun (fun t ht hlt => ?_) (.pure hs hleft)
  refine (hoperand t ht).bind fun right u hu hle hright => ?_
  exact .pure hu ⟨by omega, .logical hleft hright.2⟩

theorem ranked_parses (ranks : List Rank) (hs : s.Within c) :
    Parses c (ranked operand ranks) (ranked operand' ranks) s (Took s Expr.Enclosed) := by
  induction ranks generalizing s with
  | nil => exact hoperand s hs
  | cons rank ranks ih =>
    refine (ih hs).bind fun first t ht _ hfirst => ?_
    have hlt := hfirst.1
    exact ((binaryStep_advances (fun _ hs => ih hs) rank).repeatUntil ht hfirst.2).mono
      fun e u hle he => ⟨by omega, he⟩

end Operands

theorem binary_parses (hs : s.Within c) :
    Parses c g.binary g'.binary s (Took s Expr.Enclosed) :=
  ranked_parses (fun _ hs => hg.unaryHere hs) _ hs

theorem conjunction_parses (hs : s.Within c) :
    Parses c g.conjunction g'.conjunction s (Took s Expr.Enclosed) := by
  refine (binary_parses hg hs).bind fun first t ht _ hfirst => ?_
  have hlt := hfirst.1
  exact ((logicalStep_advances (fun s hs => binary_parses hg hs) .and).repeatUntil ht
    hfirst.2).mono fun e u hle he => ⟨by omega, he⟩

theorem disjunction_parses (hs : s.Within c) :
    Parses c g.disjunction g'.disjunction s (Took s Expr.Enclosed) := by
  refine (conjunction_parses hg hs).bind fun first t ht _ hfirst => ?_
  have hlt := hfirst.1
  exact ((logicalStep_advances (fun s hs => conjunction_parses hg hs) .or).repeatUntil ht
    hfirst.2).mono fun e u hle he => ⟨by omega, he⟩

theorem conditional_parses (hs : s.Within c) :
    Parses c g.conditional g'.conditional s (Took s Expr.Enclosed) := by
  refine (disjunction_parses hg hs).bind fun test t ht _ htest => ?_
  refine .taking ht nofun (fun u hu hlt => ?_) (.pure ht htest)
  refine (hg.assignmentHere hu).bind fun consequent v hv hle hconsequent => ?_
  refine .expecting hv fun w hw hlt' => ?_
  refine (hg.assignmentHere hw).bind fun alternate x hx hle' halternate => ?_
  have hlt'' := htest.1
  exact .pure hx ⟨by omega, .conditional htest.2 hconsequent.2 halternate.2⟩

theorem assignmentBody_parses (hs : s.Within c) :
    Parses c g.assignmentBody g'.assignmentBody s (Took s Expr.Enclosed) := by
  refine (conditional_parses hg hs).bind fun target t ht _ htarget => ?_
  refine .peeking ?_
  cases hop : assignment? t.lexeme with
  | none => exact .pure ht htarget
  | some op =>
    have hne : t.lexeme ≠ .stop := fun h => by rw [h] at hop; exact nomatch hop
    cases hassign : target.isAssignable with
    | false => exact .fail ht rfl
    | true =>
      refine .advancing ht hne fun u hu hlt => ?_
      refine (hg.assignmentHere hu).bind fun value v hv hle hvalue => ?_
      have hlt' := htarget.1
      exact .pure hv ⟨by omega, .assign htarget.2 hvalue.2⟩

/-! ## Statements -/

omit hg in
theorem endStatement_parses (hs : s.Within c) :
    Parses c endStatement endStatement s (fun _ _ => True) := by
  refine .taking hs nofun (fun t ht _ => .pure ht trivial) ?_
  refine .seeing fun found => ?_
  cases found with
  | true => exact .pure hs trivial
  | false =>
    refine .ending (fun _ => .pure hs trivial) fun _ => ?_
    refine .breaking fun found => ?_
    cases found with
    | true => exact .pure hs trivial
    | false => exact .unexpected hs

theorem declarator_parses (binder : Binder) (hs : s.Within c) :
    Parses c (g.declarator binder) (g'.declarator binder) s
      (Took s fun d => ∀ e ∈ d.2, e.Enclosed) := by
  refine (Parses.expectName hs).bind fun name t ht _ hname => ?_
  have hlt := hname.1
  refine .taking ht nofun (fun u hu hlt' => ?_) ?_
  · refine (hg.assignmentHere hu).bind fun value v hv hle hvalue => ?_
    exact .pure hv ⟨by omega, by rintro e ⟨⟩; exact hvalue.2⟩
  · by_cases hconst : binder = .constant
    · simp only [hconst, if_true]
      exact .fail ht rfl
    · simp only [hconst, if_false]
      exact .pure ht ⟨hlt, nofun⟩

theorem declarationStep_advances (binder : Binder) :
    Advances c (g.declarationStep binder) (g'.declarationStep binder)
      (fun found => ∀ d ∈ found, ∀ e ∈ d.2, e.Enclosed)
      (fun kind _ => kind.Enclosed c.loops) := by
  intro found s hs hfound
  refine (declarator_parses hg binder hs).bind fun next t ht _ hnext => ?_
  have hlt := hnext.1
  have hpush := forall_mem_push hfound hnext.2
  refine .taking ht nofun (fun u hu hlt' => .pure hu ⟨by omega, hpush⟩) (.pure ht ?_)
  exact .declare (by simpa using hpush)

theorem declaration_parses (binder : Binder) (hs : s.Within c) :
    Parses c (g.declaration binder) (g'.declaration binder) s
      (fun kind _ => kind.Enclosed c.loops) :=
  (declarationStep_advances hg binder).repeatUntil hs nofun

theorem condition_parses (hs : s.Within c) :
    Parses c g.condition g'.condition s (fun e _ => e.Enclosed) := by
  refine .expecting hs fun t ht _ => ?_
  refine (expression_parses hg ht).bind fun test u hu _ htest => ?_
  exact .expecting hu fun v hv _ => .pure hv htest.2

theorem loopBody_parses (hs : s.Within c) :
    Parses c g.loopBody g'.loopBody s
      (Took s fun stmt => stmt.Enclosed (c.loops + 1)) := by
  refine Parses.inLoop (fun s hs => ?_) hs
  exact (hg.looped.statementHere hs).mono fun stmt t _ h => ⟨h.1, h.2.1⟩

theorem branch_parses (hs : s.Within c) :
    Parses c g.branch g'.branch s (fun kind _ => kind.Enclosed c.loops) := by
  refine (condition_parses hg hs).bind fun test t ht _ htest => ?_
  refine (hg.statementHere ht).bind fun consequent u hu _ hconsequent => ?_
  refine .taking hu nofun (fun v hv _ => ?_) ?_
  · refine (hg.statementHere hv).bind fun alternate w hw _ halternate => ?_
    exact .pure hw (.branch htest hconsequent.2.1 (by rintro stmt ⟨⟩; exact halternate.2.1))
  · exact .pure hu (.branch htest hconsequent.2.1 nofun)

theorem whileLoop_parses (hs : s.Within c) :
    Parses c g.whileLoop g'.whileLoop s (fun kind _ => kind.Enclosed c.loops) := by
  refine (condition_parses hg hs).bind fun test t ht _ htest => ?_
  refine (loopBody_parses hg ht).bind fun body u hu _ hbody => ?_
  exact .pure hu (.whileLoop htest hbody.2)

theorem doLoop_parses (hs : s.Within c) :
    Parses c g.doLoop g'.doLoop s (fun kind _ => kind.Enclosed c.loops) := by
  refine (loopBody_parses hg hs).bind fun body t ht _ hbody => ?_
  refine .taking ht nofun (fun u hu _ => ?_) (.unexpected ht)
  refine (condition_parses hg hu).bind fun test v hv _ htest => ?_
  have hdone : (StmtKind.doLoop body test).Enclosed c.loops := .doLoop hbody.2 htest
  exact .taking hv nofun (fun w hw _ => .pure hw hdone) (.pure hv hdone)

theorem loopInit_parses (hs : s.Within c) :
    Parses c g.loopInit g'.loopInit s
      (fun init _ => ∀ stmt ∈ init, stmt.Enclosed c.loops ∧ stmt.line = s.line) := by
  refine .taking hs nofun (fun t ht _ => .pure ht nofun) (.reading (.peeking ?_))
  have hrest : ∀ (kind : StmtKind) t, t.Within c → kind.Enclosed c.loops →
      Parses c (do
          if ← takesPunct .semicolon then pure (some (Stmt.mk s.line kind)) else fail .loopHeader)
        (do
          if ← takesPunct .semicolon then pure (some (Stmt.mk s.line kind)) else fail .loopHeader)
        t (fun init _ => ∀ stmt ∈ init, stmt.Enclosed c.loops ∧ stmt.line = s.line) := by
    intro kind t ht hkind
    refine .taking ht nofun (fun u hu _ => .pure hu ?_) (.fail ht rfl)
    rintro stmt ⟨⟩
    exact ⟨.mk hkind, rfl⟩
  cases hbinder : binder? s.lexeme with
  | some binder =>
    have hne : s.lexeme ≠ .stop := fun h => by rw [h] at hbinder; exact nomatch hbinder
    refine .advancing hs hne fun t ht _ => ?_
    exact (declaration_parses hg binder ht).bind fun kind u hu _ hkind => hrest kind u hu hkind
  | none =>
    refine ((expression_parses hg hs).map (R := fun kind _ => kind.Enclosed c.loops)
      fun e t _ he => .expression he.2).bind fun kind t ht _ hkind => ?_
    exact hrest kind t ht hkind

theorem optionalBefore_parses (close : Punct) (hs : s.Within c) :
    Parses c (g.optionalBefore close) (g'.optionalBefore close) s
      (fun found _ => ∀ e ∈ found, e.Enclosed) := by
  refine .seeing fun seen => ?_
  cases seen with
  | true => exact .expecting hs fun t ht _ => .pure ht nofun
  | false =>
    refine ((expression_parses hg hs).map (R := fun found _ => ∀ e ∈ found, e.Enclosed)
      fun e t _ he => by rintro e' ⟨⟩; exact he.2).bind fun found t ht _ hfound => ?_
    exact .expecting ht fun u hu _ => .pure hu hfound

theorem forLoop_parses (hs : s.Within c) :
    Parses c g.forLoop g'.forLoop s (fun kind _ => kind.Enclosed c.loops) := by
  refine .expecting hs fun t ht _ => ?_
  refine (loopInit_parses hg ht).bind fun init u hu _ hinit => ?_
  refine (optionalBefore_parses hg _ hu).bind fun test v hv _ htest => ?_
  refine (optionalBefore_parses hg _ hv).bind fun update w hw _ hupdate => ?_
  refine (loopBody_parses hg hw).bind fun body x hx _ hbody => ?_
  exact .pure hx (.forLoop (fun stmt h => (hinit stmt h).1) htest hupdate hbody.2)

omit hg in
theorem catchParam_parses (hs : s.Within c) :
    Parses c catchParam catchParam s (fun _ _ => True) := by
  refine .taking hs nofun (fun t ht _ => ?_) (.pure hs trivial)
  refine (Parses.expectName ht).bind fun name u hu _ _ => ?_
  exact .expecting hu fun v hv _ => .pure hv trivial

theorem attempt_parses (hs : s.Within c) :
    Parses c g.attempt g'.attempt s (fun kind _ => kind.Enclosed c.loops) := by
  refine (block_parses hg hs).bind fun block t ht _ hblock => ?_
  have hrest : ∀ (param : Option String) (handler : Option (List Stmt)) u, u.Within c →
      (∀ body ∈ handler, ∀ stmt ∈ body, stmt.Enclosed c.loops) →
      Parses c (do
          let finalizer ← if ← takesKeyword .finallyWord then some <$> g.block else pure none
          if handler.isNone && finalizer.isNone then fail .tryAlone
          else pure (StmtKind.attempt block param handler finalizer))
        (do
          let finalizer ← if ← takesKeyword .finallyWord then some <$> g'.block else pure none
          if handler.isNone && finalizer.isNone then fail .tryAlone
          else pure (StmtKind.attempt block param handler finalizer)) u
        (fun kind _ => kind.Enclosed c.loops) := by
    intro param handler u hu hhandler
    have hlast : ∀ (finalizer : Option (List Stmt)) v, v.Within c →
        (∀ body ∈ finalizer, ∀ stmt ∈ body, stmt.Enclosed c.loops) →
        Parses c
          (if handler.isNone && finalizer.isNone then fail .tryAlone
            else pure (StmtKind.attempt block param handler finalizer))
          (if handler.isNone && finalizer.isNone then fail .tryAlone
            else pure (StmtKind.attempt block param handler finalizer)) v
          (fun kind _ => kind.Enclosed c.loops) := by
      intro finalizer v hv hfinalizer
      split
      · exact .fail hv rfl
      · exact .pure hv (.attempt hblock.2 hhandler hfinalizer)
    refine .taking hu nofun (fun v hv _ => ?_) (hlast none u hu nofun)
    refine ((block_parses hg hv).map (f := some)
      (R := fun found _ => ∀ body ∈ found, ∀ stmt ∈ body, stmt.Enclosed c.loops)
      fun body w _ hbody => by rintro body' ⟨⟩; exact hbody.2).bind
        fun finalizer w hw _ hfinalizer => ?_
    exact hlast finalizer w hw hfinalizer
  refine .taking ht nofun (fun u hu _ => ?_) (hrest none none t ht nofun)
  refine (catchParam_parses hu).bind fun param v hv _ _ => ?_
  refine (block_parses hg hv).bind fun handler w hw _ hhandler => ?_
  exact hrest param (some handler) w hw (by rintro body ⟨⟩; exact hhandler.2)

omit hg in
theorem leaveLoop_parses {outside : Cause} (houtside : s.faultLine outside = s.previous)
    {kind : StmtKind} (hkind : c.loops ≠ 0 → kind.Enclosed c.loops) (hs : s.Within c) :
    Parses c (leaveLoop s.previous outside kind) (leaveLoop s.previous outside kind) s
      (fun kind _ => kind.Enclosed c.loops) := by
  by_cases hloops : s.loops = 0
  · exact .failed hs houtside.symm (if_pos hloops) (if_pos hloops)
  · have hrun : leaveLoop s.previous outside kind s =
        (endStatement >>= fun _ => pure kind : Parsing StmtKind) s := if_neg hloops
    have hrest : Parses c (endStatement >>= fun _ => pure kind) (endStatement >>= fun _ => pure kind)
        s (fun kind _ => kind.Enclosed c.loops) :=
      (endStatement_parses hs).bind fun _ t ht _ _ => .pure ht (hkind (hs.loops ▸ hloops))
    exact ⟨rfl, hrun ▸ hrest.2⟩

theorem returnRest_parses (line : Nat) (hs : s.Within c) :
    Parses c (g.returnRest line) (g'.returnRest line) s
      (fun kind _ => kind.Enclosed c.loops) := by
  have hrest : ∀ (value : Option Expr) t, t.Within c → (∀ e ∈ value, e.Enclosed) →
      Parses c (endStatement >>= fun _ => pure (StmtKind.returnWith value))
        (endStatement >>= fun _ => pure (StmtKind.returnWith value)) t
        (fun kind _ => kind.Enclosed c.loops) :=
    fun value t ht hvalue => (endStatement_parses ht).bind fun _ u hu _ _ =>
      .pure hu (.returnWith hvalue)
  refine .seeing fun semicolon => .seeing fun brace => .looking fun stop => .reading ?_
  cases semicolon || brace || stop || decide (line < s.line) with
  | true => exact hrest none s hs nofun
  | false =>
    refine ((expression_parses hg hs).map (R := fun found _ => ∀ e ∈ found, e.Enclosed)
      fun e t _ he => by rintro e' ⟨⟩; exact he.2).bind fun found t ht _ hfound => ?_
    exact hrest found t ht hfound

theorem throwRest_parses (line : Nat) (hs : s.Within c) :
    Parses c (g.throwRest line) (g'.throwRest line) s (fun kind _ => kind.Enclosed c.loops) := by
  refine .reading ?_
  by_cases hline : line < s.line
  · simp only [hline, if_true]
    exact .fail hs rfl
  · simp only [hline, if_false]
    refine (expression_parses hg hs).bind fun value t ht _ hvalue => ?_
    exact (endStatement_parses ht).bind fun _ u hu _ _ => .pure hu (.throwing hvalue.2)

theorem expressionStatement_parses (hs : s.Within c) :
    Parses c g.expressionStatement g'.expressionStatement s
      (Took s fun kind => kind.Enclosed c.loops) := by
  refine (expression_parses hg hs).bind fun e t ht _ he => ?_
  have hlt := he.1
  exact (endStatement_parses ht).bind fun _ u hu hle _ => .pure hu ⟨by omega, .expression he.2⟩

theorem statementKind_parses (hs : s.Within c) :
    Parses c (g.statementKind s.line) (g'.statementKind s.line) s
      (Took s fun kind => kind.Enclosed c.loops) := by
  have hbehind : ∀ {p p' : Parsing StmtKind}, s.lexeme ≠ .stop →
      (∀ t, t.Within c → Parses c p p' t fun kind _ => kind.Enclosed c.loops) →
      Parses c (advance >>= fun _ => p) (advance >>= fun _ => p') s
        (Took s fun kind => kind.Enclosed c.loops) := by
    intro p p' hne hp
    refine .advancing hs hne fun t ht hlt => ?_
    exact (hp t ht).mono fun kind u hle hkind => ⟨by omega, hkind⟩
  have hleave : ∀ {outside : Cause} {kind : StmtKind}, s.lexeme ≠ .stop →
      s.advance.faultLine outside = s.line → (c.loops ≠ 0 → kind.Enclosed c.loops) →
      Parses c (advance >>= fun _ => leaveLoop s.line outside kind)
        (advance >>= fun _ => leaveLoop s.line outside kind) s
        (Took s fun kind => kind.Enclosed c.loops) := by
    intro outside kind hne houtside hkind
    refine (Parses.advance hs hne).bind fun _ t ht _ hadvance => ?_
    obtain ⟨rfl, hlt⟩ := hadvance
    exact (leaveLoop_parses houtside hkind ht).mono fun kind u hle hkind => ⟨by omega, hkind⟩
  have hdeclare : ∀ {binder : Binder}, s.lexeme ≠ .stop →
      Parses c (advance >>= fun _ => g.declaration binder >>= fun kind =>
          endStatement >>= fun _ => pure kind)
        (advance >>= fun _ => g'.declaration binder >>= fun kind =>
          endStatement >>= fun _ => pure kind) s
        (Took s fun kind => kind.Enclosed c.loops) := by
    intro binder hne
    refine hbehind hne fun t ht => ?_
    refine (declaration_parses hg binder ht).bind fun kind u hu _ hkind => ?_
    exact (endStatement_parses hu).bind fun _ v hv _ _ => .pure hv hkind
  have hinside : c.loops ≠ 0 →
      StmtKind.breakOff.Enclosed c.loops ∧ StmtKind.continueOn.Enclosed c.loops := by
    intro hne
    obtain ⟨n, hn⟩ := Nat.exists_eq_succ_of_ne_zero hne
    rw [hn]
    exact ⟨.breakOff, .continueOn⟩
  refine .peeking ?_
  cases hnext : s.lexeme with
  | keyword k =>
    have hne : s.lexeme ≠ .stop := hnext ▸ nofun
    cases k with
    | letWord => exact hdeclare hne
    | constWord => exact hdeclare hne
    | varWord => exact hdeclare hne
    | functionWord =>
      exact hbehind hne fun t ht =>
        (functionRest_parses hg true ht).map fun f u _ hf => .function hf.2
    | ifWord => exact hbehind hne fun t ht => branch_parses hg ht
    | whileWord => exact hbehind hne fun t ht => whileLoop_parses hg ht
    | doWord => exact hbehind hne fun t ht => doLoop_parses hg ht
    | forWord => exact hbehind hne fun t ht => forLoop_parses hg ht
    | breakWord => exact hleave hne rfl fun h => (hinside h).1
    | continueWord => exact hleave hne rfl fun h => (hinside h).2
    | returnWord => exact hbehind hne fun t ht => returnRest_parses hg _ ht
    | throwWord => exact hbehind hne fun t ht => throwRest_parses hg _ ht
    | tryWord => exact hbehind hne fun t ht => attempt_parses hg ht
    | _ => exact expressionStatement_parses hg hs
  | punct p =>
    have hne : s.lexeme ≠ .stop := hnext ▸ nofun
    cases p with
    | openBrace =>
      exact hbehind hne fun t ht => (blockRest_parses hg ht).map fun body u _ hbody => .block hbody
    | semicolon => exact hbehind hne fun t ht => .pure ht .empty
    | _ => exact expressionStatement_parses hg hs
  | _ => exact expressionStatement_parses hg hs

theorem statementBody_parses (hs : s.Within c) :
    Parses c g.statementBody g'.statementBody s
      (Took s fun stmt => stmt.Enclosed c.loops ∧ stmt.line = s.line) := by
  refine .reading ?_
  refine (statementKind_parses hg hs).bind fun kind t ht _ hkind => ?_
  exact .pure ht ⟨hkind.1, .mk hkind.2, rfl⟩

theorem programStep_advances :
    Advances c g.programStep g'.programStep (fun found => ∀ stmt ∈ found, stmt.Enclosed c.loops)
      (fun program t => t.lexeme = .stop ∧ ∀ stmt ∈ program, stmt.Enclosed c.loops) := by
  intro found s hs hfound
  refine .ending (fun hstop => .pure hs ⟨hstop, by simpa using hfound⟩) fun _ => ?_
  refine (hg.statementHere hs).bind fun stmt t ht _ hstmt => ?_
  exact .pure ht ⟨hstmt.1, forall_mem_push hfound hstmt.2.1⟩

theorem program_parses (hs : s.Within c) :
    Parses c g.program g'.program s
      (fun program t => t.lexeme = .stop ∧ ∀ stmt ∈ program, stmt.Enclosed c.loops) :=
  (programStep_advances hg).repeatUntil hs nofun

end Parts

/-! ## All depths -/

section Depths

variable {c : Setting} {s : Stream} {depth depth' : Nat}

theorem ofDepth_refuses (h : nestingLimit ≤ s.nesting.level) :
    (ofDepth depth).statement s = .error ⟨.tooDeep, s.line⟩ s ∧
      (ofDepth depth).assignment s = .error ⟨.tooDeep, s.line⟩ s ∧
      (ofDepth depth).unary s = .error ⟨.tooDeep, s.line⟩ s := by
  cases depth with
  | zero => exact ⟨rfl, rfl, rfl⟩
  | succ depth => exact ⟨if_pos h, if_pos h, if_pos h⟩

theorem Agree.deeper {g g' : Grammar} (h : Agree { c with level := c.level + 1 } g g') :
    Agree c g.deeper g'.deeper := by
  have hinner : ∀ loops, Agree { c with loops, level := c.level + 1 } g g' :=
    fun _ => ⟨h.statement, h.assignment, h.unary⟩
  refine ⟨fun loops s hs => ?_, fun loops s hs => ?_, fun loops s hs => ?_⟩
  · refine .nested (fun t ht hwithin => ?_) hs
    subst ht
    exact statementBody_parses (hinner loops) hwithin
  · exact .nested (fun t _ ht => assignmentBody_parses (hinner loops) ht) hs
  · exact .nested (fun t _ ht => unaryBody_parses (hinner loops) ht) hs

/-- Where no level is left, no grammar goes on. -/
theorem ofDepth_agree_full (h : nestingLimit ≤ c.level) :
    Agree c (ofDepth depth) (ofDepth depth') := by
  have hfull : ∀ {loops} {s : Stream}, s.Within { c with loops } →
      nestingLimit ≤ s.nesting.level := by
    intro loops s hs
    rw [hs.level]
    exact h
  refine ⟨fun loops s hs => ?_, fun loops s hs => ?_, fun loops s hs => ?_⟩
  · exact .failed hs rfl (ofDepth_refuses (hfull hs)).1 (ofDepth_refuses (hfull hs)).1
  · exact .failed hs rfl (ofDepth_refuses (hfull hs)).2.1 (ofDepth_refuses (hfull hs)).2.1
  · exact .failed hs rfl (ofDepth_refuses (hfull hs)).2.2 (ofDepth_refuses (hfull hs)).2.2

/-- Grammars do the same where their depths suffice for all levels that are left. -/
theorem ofDepth_agree (hdepth : nestingLimit ≤ c.level + depth)
    (hdepth' : nestingLimit ≤ c.level + depth') : Agree c (ofDepth depth) (ofDepth depth') := by
  induction depth generalizing c depth' with
  | zero => exact ofDepth_agree_full hdepth
  | succ depth ih =>
    cases depth' with
    | zero => exact ofDepth_agree_full hdepth'
    | succ depth' =>
      have hlevel : nestingLimit ≤ c.level + 1 + depth := by omega
      have hlevel' : nestingLimit ≤ c.level + 1 + depth' := by omega
      exact (ih (c := { c with level := c.level + 1 }) hlevel hlevel').deeper

end Depths

end Grammar

end ScriptHost.Source

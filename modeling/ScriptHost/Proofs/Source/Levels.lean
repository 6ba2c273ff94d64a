import ScriptHost.Proofs.Source.Reading

/-!
The parsers of the levels, and what makes each of them go on. Tokens read at a level are read at
every looser one, unless what follows holds on to them.
-/

namespace ScriptHost.Source

open Grammar Parsing

/-! ## Tokens in front of and behind expressions -/

/-- Behind an expression, the first level whose parser stops in front of the token. -/
def Lexeme.hold : Lexeme → Nat
  | .punct .assign | .punct .plusAssign | .punct .minusAssign | .punct .timesAssign
  | .punct .divideAssign | .punct .remainderAssign => 1
  | .punct .question => 2
  | .punct .orOr => 3
  | .punct .andAnd => 4
  | .punct .strictEqual | .punct .strictNotEqual | .punct .equal | .punct .notEqual => 5
  | .punct .less | .punct .lessEqual | .punct .greater | .punct .greaterEqual => 6
  | .punct .plus | .punct .minus => 7
  | .punct .star | .punct .slash | .punct .percent => 8
  | .punct .plusPlus | .punct .minusMinus => 10
  | .punct .openParen => 11
  | .punct .dot | .punct .openBracket => 12
  | _ => 0

/-- The tightest level of the expressions that begin with the token, if any does. -/
def Lexeme.reach : Lexeme → Nat
  | .number _ | .string _ | .name _ => 12
  | .keyword .trueWord | .keyword .falseWord | .keyword .nullWord | .keyword .undefinedWord
  | .keyword .thisWord => 12
  | .punct .openParen | .punct .openBracket | .punct .openBrace => 12
  | .keyword .newWord => 10
  | .keyword .typeofWord | .punct .bang | .punct .minus | .punct .plus => 8
  | .punct .plusPlus | .punct .minusMinus => 8
  | _ => 0

namespace Lexeme

variable {x : Lexeme}

theorem assignment?_eq_none (h : x.hold ≤ 0) : assignment? x = none := by
  cases x with
  | punct p => cases p <;> first | rfl | exact absurd h (by decide)
  | _ => rfl

theorem ne_question (h : x.hold ≤ 1) : x ≠ .punct .question := by
  rintro rfl
  exact absurd h (by decide)

theorem ne_logical {op : LogicalOp} (h : x.hold ≤ op.level) : x ≠ .punct op.punct := by
  rintro rfl
  cases op <;> exact absurd h (by decide)

theorem hold_binary (op : BinaryOp) : (Lexeme.punct op.punct).hold = op.rank.level + 1 := by
  cases op <;> rfl

theorem hold_logical (op : LogicalOp) : (Lexeme.punct op.punct).hold = op.level + 1 := by
  cases op <;> rfl

theorem ofLexeme?_eq_none {rank : Rank} (h : x.hold ≤ rank.level) :
    BinaryOp.ofLexeme? rank x = none := by
  simp only [BinaryOp.ofLexeme?, List.find?_eq_none]
  intro op _ hop
  obtain ⟨hrank, rfl⟩ : op.rank = rank ∧ x = .punct op.punct := by simpa using hop
  rw [hold_binary, hrank] at h
  omega

theorem update?_eq_none (h : x.hold ≤ 9) : update? x = none := by
  cases x with
  | punct p => cases p <;> first | rfl | exact absurd h (by decide)
  | _ => rfl

theorem ne_openParen (h : x.hold ≤ 10) : x ≠ .punct .openParen := by
  rintro rfl
  exact absurd h (by decide)

theorem ne_dot (h : x.hold ≤ 11) : x ≠ .punct .dot := by
  rintro rfl
  exact absurd h (by decide)

theorem ne_openBracket (h : x.hold ≤ 11) : x ≠ .punct .openBracket := by
  rintro rfl
  exact absurd h (by decide)

theorem hold_le (x : Lexeme) : x.hold ≤ 12 := by
  cases x with
  | punct p => cases p <;> decide
  | _ => exact Nat.zero_le 12

theorem not_sign (h : 9 ≤ x.reach) : unary? x = none ∧ update? x = none := by
  cases x with
  | punct p => cases p <;> first | exact ⟨rfl, rfl⟩ | exact absurd h (by decide)
  | keyword k => cases k <;> first | exact ⟨rfl, rfl⟩ | exact absurd h (by decide)
  | _ => exact ⟨rfl, rfl⟩

theorem ne_new (h : 11 ≤ x.reach) : x ≠ .keyword .newWord := by
  rintro rfl
  exact absurd h (by decide)

end Lexeme

/-- The tokens of an expression of the level begin in this way. -/
def Begins (level : Nat) (lexemes : List Lexeme) : Prop :=
  ∃ x xs, lexemes = x :: xs ∧ level ≤ x.reach ∧ 8 ≤ x.reach

theorem Begins.mono {k l : Nat} {xs : List Lexeme} (h : Begins l xs) (hkl : k ≤ l) :
    Begins k xs := by
  obtain ⟨x, xs, rfl, hx, h8⟩ := h
  exact ⟨x, xs, rfl, by omega, h8⟩

theorem Begins.append {k : Nat} {xs : List Lexeme} (h : Begins k xs) (ys : List Lexeme) :
    Begins k (xs ++ ys) := by
  obtain ⟨x, xs, rfl, hx⟩ := h
  exact ⟨x, xs ++ ys, rfl, hx⟩

theorem begins_parenthesized {k : Nat} (hk : k ≤ 12) (xs : List Lexeme) :
    Begins k (parenthesized xs) :=
  ⟨.punct .openParen, xs ++ [.punct .closeParen], rfl, hk, by decide⟩

/-! ## The parsers of the levels -/

/-- Levels whose parsers read an operand, and then go on behind it as long as they can. -/
inductive Tier where
  | logical (op : LogicalOp)
  | ranked (rank : Rank)
  | chained (calls : Bool)

def Rank.tighter : Rank → List Rank
  | equality => [relational, additive, multiplicative]
  | relational => [additive, multiplicative]
  | additive => [multiplicative]
  | multiplicative => []

namespace Tier

def level : Tier → Nat
  | logical op => op.level
  | ranked rank => rank.level
  | chained true => 10
  | chained false => 11

/-- What stands behind an operand holds on to nothing looser. -/
def bound : Tier → Nat
  | logical op => op.level + 1
  | ranked rank => rank.level + 1
  | chained _ => 12

def operand : Tier → Grammar → Parsing Expr
  | logical .or, g => g.conjunction
  | logical .and, g => g.binary
  | ranked rank, g => Grammar.ranked g.unary rank.tighter
  | chained true, g => g.head
  | chained false, g => g.primary

def step : Tier → Grammar → Expr → Parsing (Expr ⊕ Expr)
  | logical op, g => logicalStep op ((logical op).operand g)
  | ranked rank, g => binaryStep rank ((ranked rank).operand g)
  | chained calls, g => g.link calls

end Tier

/-- The parser that reads expressions of a level and all tighter ones. -/
def reader : Nat → Grammar → Parsing Expr
  | 0, g => g.assignment
  | 1, g => g.conditional
  | 2, g => g.disjunction
  | 3, g => g.conjunction
  | 4, g => ranked g.unary (.equality :: Rank.equality.tighter)
  | 5, g => ranked g.unary (.relational :: Rank.relational.tighter)
  | 6, g => ranked g.unary (.additive :: Rank.additive.tighter)
  | 7, g => ranked g.unary (.multiplicative :: Rank.multiplicative.tighter)
  | 8, g => g.unary
  | 9, g => g.postfixed
  | 10, g => g.callMember
  | _, g => g.callee

theorem reader_level (t : Tier) :
    reader t.level = fun g => t.operand g >>= repeatUntil (t.step g) := by
  rcases t with op | rank | calls
  · cases op <;> rfl
  · cases rank <;> rfl
  · cases calls <;> rfl

/-- The expression is read in front of all that its level stops at. -/
def Settles (level need : Nat) (lexemes : List Lexeme) (e : Expr) : Prop :=
  ∀ next : Lexeme, next.hold ≤ level → Reads (reader level) lexemes next need e

theorem Settles.mono {k m n : Nat} {xs : List Lexeme} {e : Expr} (h : Settles k m xs e)
    (hmn : m ≤ n) : Settles k n xs e :=
  fun next hnext => (h next hnext).mono hmn

/-- The expression is read as the first operand of whatever follows it on its tier. -/
def Leads (t : Tier) (need : Nat) (lexemes : List Lexeme) (e : Expr) : Prop :=
  ∀ m, need ≤ m → ∀ (ys : List Lexeme) (next : Lexeme) (result : Expr),
    (ys.headD next).hold ≤ t.bound → Rounds t.step next m e ys result →
    Reads (reader t.level) (lexemes ++ ys) next m result

namespace Leads

variable {t : Tier} {m n : Nat} {xs ys : List Lexeme} {y : Lexeme} {e e' : Expr}

theorem mono (h : Leads t m xs e) (hmn : m ≤ n) : Leads t n xs e := by
  intro k hk
  exact h k (by omega)

theorem first (h : ∀ next : Lexeme, next.hold ≤ t.bound → Reads t.operand xs next n e) :
    Leads t n xs e := by
  intro m hm ys next result hhold hrounds
  rw [reader_level]
  exact Reads.bind ((h _ hhold).mono hm) hrounds.reads

theorem join (h : Leads t n xs e) (hy : y.hold ≤ t.bound)
    (hstep : ∀ next : Lexeme, next.hold ≤ t.bound →
      Reads (t.step · e) (y :: ys) next n (.inl e')) : Leads t n (xs ++ y :: ys) e' := by
  intro m hm zs next result hhold hrounds
  have hgo := Rounds.go (List.cons_ne_nil y ys) ((hstep _ hhold).mono hm) hrounds
  simpa using h m hm (y :: ys ++ zs) next result hy hgo

end Leads

theorem Tier.level_le_bound (t : Tier) : t.level ≤ t.bound := by
  rcases t with op | rank | calls
  · simp [level, bound]
  · simp [level, bound]
  · cases calls <;> simp [level, bound]

theorem Tier.step_stops (t : Tier) {next : Lexeme} {n : Nat} {e : Expr}
    (h : next.hold ≤ t.level) : Reads (t.step · e) [] next n (.inr e) := by
  rcases t with op | rank | calls
  · exact Reads.passing (Lexeme.ne_logical h) Reads.pure
  · refine Reads.peeking ?_
    simp only [List.headD_nil, Lexeme.ofLexeme?_eq_none h]
    exact Reads.pure
  · have h11 : next.hold ≤ 11 := by cases calls <;> simp [level] at h <;> omega
    refine Reads.passing (Lexeme.ne_dot h11) (Reads.passing (Lexeme.ne_openBracket h11) ?_)
    refine Reads.seeing ?_
    cases calls with
    | false => exact Reads.pure
    | true =>
        simp only [List.headD_nil, Lexeme.ne_openParen h]
        exact Reads.pure

theorem Leads.settles {t : Tier} {n : Nat} {xs : List Lexeme} {e : Expr} (h : Leads t n xs e) :
    Settles t.level n xs e := by
  intro next hnext
  have hstop : Rounds t.step next n e [] e := .stop (t.step_stops hnext)
  simpa using h n (Nat.le_refl n) [] next e (Nat.le_trans hnext t.level_le_bound) hstop

/-! ## From tight levels to loose ones -/

/-- Nesting on the way from a level to what stands for itself. -/
def cost : Nat → Nat
  | 0 => 2
  | level => if level ≤ 8 then 1 else 0

theorem cost_le_one {k : Nat} (h : 0 < k) : cost k ≤ 1 := by
  cases k with
  | zero => omega
  | succ k => simp only [cost]; split <;> omega

section Climbing

variable {k n : Nat} {xs : List Lexeme} {e : Expr}

theorem Settles.assignment (h : Settles 1 n xs e) : Settles 0 (n + 1) xs e := by
  intro next hnext
  refine Reads.nested (p := Grammar.assignmentBody) rfl (fun _ => rfl) ?_
  rw [← List.append_nil xs]
  refine Reads.bind (h next (by omega)) (Reads.peeking ?_)
  simp only [List.headD_nil, Lexeme.assignment?_eq_none hnext]
  exact Reads.pure

theorem Settles.conditional (h : Settles 2 n xs e) : Settles 1 n xs e := by
  intro next hnext
  rw [← List.append_nil xs]
  exact Reads.bind (h next (by omega)) (Reads.passing (Lexeme.ne_question hnext) Reads.pure)

theorem Settles.operand {t : Tier} {next : Lexeme} (ht : t.level ≤ 7)
    (h : Settles (t.level + 1) n xs e) (hnext : next.hold ≤ t.bound) :
    Reads t.operand xs next n e := by
  rcases t with op | rank | calls
  · cases op <;> exact h next hnext
  · cases rank <;> exact h next hnext
  · cases calls <;> simp [Tier.level] at ht

theorem Settles.leads {t : Tier} (ht : t.level ≤ 7) (h : Settles (t.level + 1) n xs e) :
    Leads t n xs e :=
  .first fun _ hnext => h.operand ht hnext

theorem Settles.unary (hb : Begins 9 xs) (h : Settles 9 n xs e) : Settles 8 (n + 1) xs e := by
  intro next hnext
  refine Reads.nested (p := Grammar.unaryBody) rfl (fun _ => rfl) ?_
  refine Reads.peeking ?_
  obtain ⟨x, xs, rfl, hx, -⟩ := hb
  simp only [List.headD_cons, (Lexeme.not_sign hx).1, (Lexeme.not_sign hx).2]
  exact h next (by omega)

theorem Settles.postfixed (h : Settles 10 n xs e) : Settles 9 n xs e := by
  intro next hnext
  rw [← List.append_nil xs]
  refine Reads.bind (h next (by omega)) (Reads.peeking ?_)
  simp only [List.headD_nil, Lexeme.update?_eq_none hnext]
  exact Reads.pure

theorem Settles.climb (hk : k ≤ 9) (hb : k = 8 → Begins 9 xs)
    (h : Settles (k + 1) (n + cost (k + 1)) xs e) : Settles k (n + cost k) xs e := by
  -- only the parser of prefix operators looks at what the tokens begin with
  match k, hk, hb, h with
  | 0, _, _, h => exact h.assignment
  | 1, _, _, h => exact h.conditional
  | 2, _, _, h => exact (Settles.leads (t := .logical .or) (by decide) h).settles
  | 3, _, _, h => exact (Settles.leads (t := .logical .and) (by decide) h).settles
  | 4, _, _, h => exact (Settles.leads (t := .ranked .equality) (by decide) h).settles
  | 5, _, _, h => exact (Settles.leads (t := .ranked .relational) (by decide) h).settles
  | 6, _, _, h => exact (Settles.leads (t := .ranked .additive) (by decide) h).settles
  | 7, _, _, h => exact (Settles.leads (t := .ranked .multiplicative) (by decide) h).settles
  | 8, _, hb, h => exact h.unary (hb rfl)
  | 9, _, _, h => exact h.postfixed

theorem Settles.below {l : Nat} (hkl : k ≤ l) (hl : l ≤ 10) (hb : Begins l xs)
    (h : Settles l (n + cost l) xs e) : Settles k (n + cost k) xs e := by
  induction l with
  | zero =>
      obtain rfl : k = 0 := by omega
      exact h
  | succ l ih =>
      by_cases hlast : k = l + 1
      · subst hlast
        exact h
      · refine ih (by omega) (by omega) (hb.mono (by omega)) ?_
        exact h.climb (by omega) (fun h8 => hb.mono (by omega))

end Climbing

end ScriptHost.Source

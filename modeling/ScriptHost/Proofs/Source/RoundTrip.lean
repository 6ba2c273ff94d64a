import ScriptHost.Proofs.Source.Levels

/-!
An expression is read back from its tokens, whatever level they were written for.
-/

namespace ScriptHost.Source

open Grammar Parsing

/-! ## How tokens begin -/

theorem begins_guarded {k l : Nat} {xs : List Lexeme} (hk : k ≤ 12) (h : k ≤ l → Begins k xs) :
    Begins k (guarded k l xs) := by
  unfold guarded
  split
  · exact begins_parenthesized hk xs
  · exact h (by omega)

theorem reach_lexeme (op : UnaryOp) : op.lexeme.reach = 8 := by
  cases op <;> rfl

theorem reach_updatePunct (increment : Bool) :
    (Lexeme.punct (updatePunct increment)).reach = 8 := by
  cases increment <;> rfl

theorem Rank.level_le_seven (rank : Rank) : rank.level ≤ 7 := by
  cases rank <;> decide

theorem LogicalOp.level_le_three (op : LogicalOp) : op.level ≤ 3 := by
  cases op <;> decide

theorem Begins.loosen {k l : Nat} {xs : List Lexeme} (h : Begins l xs) (hk : k ≤ 8) :
    Begins k xs := by
  obtain ⟨x, xs, rfl, -, h8⟩ := h
  exact ⟨x, xs, rfl, by omega, h8⟩

theorem begins_cons {k l : Nat} {x : Lexeme} {xs : List Lexeme} (hx : x.reach = l) (hl : 8 ≤ l)
    (hk : k ≤ l) : Begins k (x :: xs) :=
  ⟨x, xs, rfl, by omega, by omega⟩

theorem Expr.Printable.begins {e : Expr} (h : e.Printable) : ∀ k ≤ 12, Begins k (e.render k) := by
  induction h with
  | number | string | null | undefined | this | name | array | object =>
      intro k hk
      exact begins_cons (l := 12) rfl (by omega) hk
  | bool b =>
      intro k hk
      cases b <;> exact begins_cons (l := 12) rfl (by omega) hk
  | unary op =>
      intro k hk
      exact begins_guarded hk fun hk8 => begins_cons (reach_lexeme op) (by omega) hk8
  | binary op _ _ ihleft =>
      intro k hk
      have h7 := op.rank.level_le_seven
      exact begins_guarded hk fun hkl => ((ihleft _ (by omega)).append _).loosen (by omega)
  | logical op _ _ ihleft =>
      intro k hk
      have h3 := op.level_le_three
      exact begins_guarded hk fun hkl => ((ihleft _ (by omega)).append _).loosen (by omega)
  | conditional _ _ _ ihtest =>
      intro k hk
      exact begins_guarded hk fun hk1 => ((ihtest 2 (by omega)).append _).loosen (by omega)
  | assign _ _ _ _ ihtarget =>
      intro k hk
      exact begins_guarded hk fun hk0 => ((ihtarget 1 (by omega)).append _).loosen (by omega)
  | update increment before _ _ ih =>
      intro k hk
      cases before with
      | true =>
          exact begins_guarded hk fun hk8 =>
            begins_cons (reach_updatePunct increment) (by omega) hk8
      | false => exact begins_guarded hk fun hk9 => ((ih 10 (by omega)).append _).mono (by omega)
  | member property _ ih =>
      intro k hk
      refine begins_guarded hk fun hk11 => Begins.append ?_ _
      have hspine : k ≤ spine k ∧ spine k ≤ 12 := by unfold spine; split <;> omega
      exact (ih _ hspine.2).mono hspine.1
  | index _ _ ih =>
      intro k hk
      refine begins_guarded hk fun hk11 => Begins.append ?_ _
      have hspine : k ≤ spine k ∧ spine k ≤ 12 := by unfold spine; split <;> omega
      exact (ih _ hspine.2).mono hspine.1
  | call _ _ ih =>
      intro k hk
      exact begins_guarded hk fun hk10 => ((ih 10 (by omega)).append _).mono hk10
  | construct =>
      intro k hk
      exact begins_guarded hk fun hk10 => begins_cons (l := 10) rfl (by omega) hk10

/-! ## What stands for itself -/

structure Atom (need : Nat) (lexemes : List Lexeme) (e : Expr) : Prop where
  begins : Begins 12 lexemes
  reads : ∀ next : Lexeme, Reads Grammar.primary lexemes next need e

theorem Atom.leads {n : Nat} {xs : List Lexeme} {e : Expr} (h : Atom n xs e) (calls : Bool) :
    Leads (.chained calls) n xs e := by
  refine .first ?_
  intro next _
  cases calls with
  | false => exact h.reads next
  | true =>
      obtain ⟨x, xs, rfl, hx, -⟩ := h.begins
      exact Reads.passing (Lexeme.ne_new (by simp; omega)) (h.reads next)

theorem Atom.parenthesized {n : Nat} {xs : List Lexeme} {e : Expr} (h : Settles 0 n xs e) :
    Atom n (parenthesized xs) e := by
  refine ⟨begins_parenthesized (by omega) xs, ?_⟩
  intro next
  refine Reads.peeking (Reads.advancing ?_)
  exact Reads.bind (h (.punct .closeParen) (by decide)) (Reads.expecting Reads.pure)

/-! ## Expressions read back at every level -/

/--
Whatever level the tokens were written for, its parser reads the expression back. Nothing is
written for the level of conditionals but names and properties, which tighter levels read too.
-/
structure Undone (e : Expr) : Prop where
  settles : ∀ k ≤ 10, k ≠ 1 → Settles k (3 * e.depth + 3) (e.render k) e
  leads : ∀ t : Tier, Leads t (3 * e.depth + 3) (e.render t.level) e

theorem Tier.level_bounds (t : Tier) : (2 ≤ t.level ∧ t.level ≤ 7) ∨ ∃ calls, t = .chained calls := by
  rcases t with op | rank | calls
  · cases op <;> simp [level, LogicalOp.level]
  · cases rank <;> simp [level, Rank.level]
  · exact .inr ⟨calls, rfl⟩

theorem cost_le_two (k : Nat) : cost k ≤ 2 := by
  cases k with
  | zero => decide
  | succ k => exact Nat.le_succ_of_le (cost_le_one (by omega))

section Assembly

variable {e : Expr} {xs : List Lexeme}

theorem Settles.leads_of_render {n : Nat} {t : Tier} (ht : t.level ≤ 7)
    (h : Settles (t.level + 1) n (e.render (t.level + 1)) e)
    (hrender : e.render (t.level + 1) = e.render t.level) : Leads t n (e.render t.level) e := by
  rw [hrender] at h
  exact h.leads ht

/-- What calls and properties may follow without parentheses. -/
theorem Undone.of_chained (hrender : ∀ k ≤ 10, e.render k = xs) (hb : Begins 10 xs)
    (h : ∀ calls, Leads (.chained calls) (3 * e.depth) (e.render (Tier.chained calls).level) e) :
    Undone e := by
  have hsettles : ∀ k ≤ 10, Settles k (3 * e.depth + 3) (e.render k) e := by
    intro k hk
    have htop : Settles 10 (3 * e.depth + cost 10) xs e := by
      rw [← hrender 10 (by omega)]
      exact (h true).settles
    rw [hrender k hk]
    have hcost := cost_le_two k
    exact (htop.below hk (by omega) hb).mono (by omega)
  refine ⟨fun k hk _ => hsettles k hk, ?_⟩
  intro t
  rcases t.level_bounds with ⟨-, ht⟩ | ⟨calls, rfl⟩
  · exact (hsettles (t.level + 1) (by omega)).leads_of_render ht
      ((hrender _ (by omega)).trans (hrender _ (by omega)).symm)
  · exact (h calls).mono (by omega)

theorem guarded_succ {k l : Nat} (h : k ≠ l) : guarded (k + 1) l xs = guarded k l xs := by
  have : l < k + 1 ↔ l < k := by omega
  simp [guarded, this]

theorem Undone.of_guarded {l : Nat} (hrender : ∀ k, e.render k = guarded k l xs) (hl : l ≤ 10)
    (loose : ∀ k ≤ l, k ≠ 1 → Settles k (3 * e.depth + cost k) xs e)
    (own : ∀ t : Tier, t.level = l → Leads t (3 * e.depth + 3) xs e) : Undone e := by
  -- where a tighter level is asked for, the tokens stand in parentheses, which read as an atom
  have hatom : Atom (3 * e.depth + 2) (parenthesized xs) e :=
    .parenthesized (loose 0 (by omega) (by omega))
  have hsettles : ∀ k ≤ 10, k ≠ 1 → Settles k (3 * e.depth + 3) (e.render k) e := by
    intro k hk hk1
    rw [hrender, guarded]
    split
    · have htop : Settles 10 (3 * e.depth + 2 + cost 10) (parenthesized xs) e :=
        (hatom.leads true).settles
      have hcost : cost k ≤ 1 := cost_le_one (by omega)
      exact (htop.below hk (by omega) (begins_parenthesized (by omega) xs)).mono (by omega)
    · have hcost := cost_le_two k
      exact (loose k (by omega) hk1).mono (by omega)
  refine ⟨hsettles, ?_⟩
  intro t
  by_cases hown : t.level = l
  · rw [hrender, guarded, if_neg (by omega)]
    exact own t hown
  · rcases t.level_bounds with ⟨ht2, ht7⟩ | ⟨calls, rfl⟩
    · refine (hsettles (t.level + 1) (by omega) (by omega)).leads_of_render ht7 ?_
      rw [hrender, hrender, guarded_succ hown]
    · have htight : l < (Tier.chained calls).level := by
        cases calls <;> simp [Tier.level] at hown ⊢ <;> omega
      rw [hrender, guarded, if_pos htight]
      exact (hatom.leads calls).mono (by omega)

end Assembly

/-! ## The forms of expressions -/

section Forms

variable {e target value base callee : Expr} {n : Nat}

theorem Undone.of_atom {xs : List Lexeme} (hrender : ∀ k, e.render k = xs) (hb : Begins 12 xs)
    (h : ∀ next : Lexeme, Reads Grammar.primary xs next (3 * e.depth) e) : Undone e := by
  refine .of_chained (fun k _ => hrender k) (hb.mono (by omega)) ?_
  intro calls
  rw [hrender]
  exact (Atom.mk hb h).leads calls

theorem Undone.of_untiered {l : Nat} {xs : List Lexeme} (hrender : ∀ k, e.render k = guarded k l xs)
    (hl : l ≤ 1 ∨ l = 8 ∨ l = 9)
    (loose : ∀ k ≤ l, k ≠ 1 → Settles k (3 * e.depth + cost k) xs e) : Undone e := by
  refine .of_guarded hrender (by omega) loose ?_
  intro t ht
  rcases t.level_bounds with hbounds | ⟨calls, rfl⟩
  · omega
  · cases calls <;> simp [Tier.level] at ht <;> omega

theorem Undone.of_loose {l : Nat} {xs : List Lexeme} (hrender : ∀ k, e.render k = guarded k l xs)
    (hl : l ≤ 1) (h : Settles 0 (3 * e.depth + 2) xs e) : Undone e := by
  refine .of_untiered hrender (by omega) ?_
  intro k hk hk1
  obtain rfl : k = 0 := by omega
  exact h

theorem Undone.of_signed {l : Nat} {xs : List Lexeme} (hrender : ∀ k, e.render k = guarded k l xs)
    (hl : l = 8 ∨ l = 9) (hb : Begins l xs) (h : Settles l (3 * e.depth + cost l) xs e) :
    Undone e := by
  refine .of_untiered hrender (by omega) ?_
  intro k hk _
  exact h.below hk (by omega) hb

theorem Tier.level_injective {t u : Tier} (h : t.level = u.level) : t = u := by
  rcases t with (_ | _) | (_ | _ | _ | _) | (_ | _) <;>
    rcases u with (_ | _) | (_ | _ | _ | _) | (_ | _) <;> first | rfl | cases h

theorem Undone.of_tier {t : Tier} {xs : List Lexeme} (ht : t.level ≤ 10)
    (hrender : ∀ k, e.render k = guarded k t.level xs) (hb : Begins t.level xs)
    (h : Leads t (3 * e.depth) xs e) : Undone e := by
  refine .of_guarded hrender ht ?_ ?_
  · intro k hk _
    have htop : Settles t.level (3 * e.depth + cost t.level) xs e := h.settles.mono (by omega)
    exact htop.below hk ht hb
  · intro u hu
    obtain rfl := Tier.level_injective hu
    exact h.mono (by omega)

theorem Expr.render_of_isAssignable (h : e.isAssignable = true) {k : Nat} (hk : k ≤ 10) :
    e.render k = e.render 10 := by
  have h11 : ¬ 11 < k := by omega
  have hspine : spine k = spine 10 := by simp [spine]; omega
  cases e <;> simp [Expr.isAssignable] at h <;> simp [Expr.render, guarded, hspine] <;> omega

/-- Before an item ends nothing holds on to it. -/
theorem Undone.listed (h : Undone e) (hp : e.Printable) {close : Punct}
    (hclose : (Lexeme.punct close).hold = 0 ∧ (Lexeme.punct close).reach = 0)
    (hn : 3 * e.depth + 3 ≤ n) : Listed Grammar.assignment (Expr.render 0) close n e := by
  constructor
  · obtain ⟨x, xs, hx, -, h8⟩ := hp.begins 0 (by omega)
    refine ⟨x, xs, hx, ?_⟩
    rintro rfl
    omega
  · intro stop hstop
    have hhold : (Lexeme.punct stop).hold ≤ 0 := by
      rcases hstop with rfl | rfl
      · decide
      · omega
    exact (h.settles 0 (by omega) (by omega) _ hhold).mono hn

theorem reads_items {items : List Expr} (hp : ∀ e ∈ items, e.Printable)
    (h : ∀ e ∈ items, Undone e) (hn : 3 * depthOfItems items + 3 ≤ n) {close : Punct}
    (hclose : (Lexeme.punct close).hold = 0 ∧ (Lexeme.punct close).reach = 0)
    (hcomma : close ≠ .comma) (next : Lexeme) :
    Reads (fun g => sequence close g.assignment)
      (separated (renderItems items) ++ [.punct close]) next n items := by
  rw [renderItems_eq_map]
  refine Reads.sequence hcomma ?_
  intro e he
  have hdepth := depth_le_depthOfItems he
  exact (h e he).listed (hp e he) hclose (by omega)

theorem reads_arguments {args : List Expr} (hp : ∀ e ∈ args, e.Printable)
    (h : ∀ e ∈ args, Undone e) (hn : 3 * depthOfItems args + 3 ≤ n) (next : Lexeme) :
    Reads Grammar.arguments
      (.punct .openParen :: (separated (renderItems args) ++ [.punct .closeParen])) next n args :=
  Reads.expecting (reads_items hp h hn (by decide) (by decide) next)

theorem reads_entries {entries : List (String × Expr)} (h : ∀ p ∈ entries, Undone p.2)
    (hn : 3 * depthOfEntries entries + 3 ≤ n) (next : Lexeme) :
    Reads (fun g => sequence .closeBrace g.entry)
      (separated (renderEntries entries) ++ [.punct .closeBrace]) next n entries := by
  rw [renderEntries_eq_map]
  refine Reads.sequence (by decide) ?_
  rintro ⟨key, e⟩ he
  refine ⟨⟨_, _, rfl, by simp⟩, ?_⟩
  intro stop hstop
  have hhold : (Lexeme.punct stop).hold ≤ 0 := by
    rcases hstop with rfl | rfl <;> decide
  have hdepth : e.depth ≤ depthOfEntries entries := depth_le_depthOfEntries he
  have hvalue : Reads Grammar.assignment (e.render 0) (.punct stop) n e :=
    ((h _ he).settles 0 (by omega) (by omega) _ hhold).mono (by simp; omega)
  have hkey : Reads (fun _ => Grammar.key) [.string key] (.punct .colon) n key :=
    Reads.peeking (Reads.advancing Reads.pure)
  change Reads Grammar.entry ([.string key] ++ .punct .colon :: e.render 0) (.punct stop) n (key, e)
  exact Reads.bind hkey (Reads.taking (Reads.answering hvalue))

theorem Undone.unary (op : UnaryOp) (h : Undone e) : Undone (.unary op e) := by
  refine .of_signed (l := 8) (fun k => rfl) (by omega)
    (begins_cons (reach_lexeme op) (by omega) (by omega)) ?_
  intro next hnext
  refine Reads.nested (p := Grammar.unaryBody) rfl (fun _ => rfl) (Reads.peeking ?_)
  simp only [List.headD_cons, op.unary?_lexeme]
  refine Reads.advancing (Reads.answering ?_)
  exact (h.settles 8 (by omega) (by omega) next hnext).mono (by simp; omega)

theorem Undone.updateBefore (increment : Bool) (ha : target.isAssignable = true)
    (h : Undone target) : Undone (.update increment true target) := by
  refine .of_signed (l := 8) (fun k => rfl) (by omega)
    (begins_cons (reach_updatePunct increment) (by omega) (by omega)) ?_
  intro next hnext
  refine Reads.nested (p := Grammar.unaryBody) rfl (fun _ => rfl) (Reads.peeking ?_)
  have hnone : unary? (.punct (updatePunct increment)) = none := by cases increment <;> rfl
  simp only [List.headD_cons, hnone, update?_updatePunct]
  have htarget := h.settles 8 (by omega) (by omega) next hnext
  refine Reads.advancing ?_
  rw [← List.append_nil (target.render 8)]
  refine Reads.bind (htarget.mono (by simp; omega)) ?_
  simp only [ha]
  exact Reads.pure

theorem Undone.updateBehind (increment : Bool) (ha : target.isAssignable = true)
    (hp : target.Printable) (h : Undone target) : Undone (.update increment false target) := by
  refine .of_signed (l := 9) (fun k => rfl) (by omega)
    (((hp.begins 10 (by omega)).append _).mono (by omega)) ?_
  intro next _
  have hhold : (Lexeme.punct (updatePunct increment)).hold ≤ 10 := by cases increment <;> decide
  have htarget := h.settles 10 (by omega) (by omega) _ hhold
  refine Reads.bind (htarget.mono (by simp; omega)) (Reads.peeking ?_)
  simp only [List.headD_cons, update?_updatePunct]
  refine Reads.onOneLine ?_
  simp only [ha]
  exact Reads.advancing Reads.pure

theorem Undone.binary (op : BinaryOp) {left right : Expr} (hp : left.Printable)
    (hleft : Undone left) (hright : Undone right) : Undone (.binary op left right) := by
  have h7 := op.rank.level_le_seven
  refine .of_tier (t := .ranked op.rank) (by simp only [Tier.level]; omega) (fun k => rfl)
    ((hp.begins _ (by simp only [Tier.level]; omega)).append _) ?_
  have hlead := (hleft.leads (.ranked op.rank)).mono (n := 3 * (Expr.binary op left right).depth)
    (by simp; omega)
  refine hlead.join (by simp [Lexeme.hold_binary, Tier.bound]) ?_
  intro next hnext
  have hoperand := (hright.settles (op.rank.level + 1) (by omega) (by
    cases op <;> decide)).operand (t := .ranked op.rank) h7 hnext
  refine Reads.peeking ?_
  simp only [List.headD_cons, BinaryOp.ofLexeme?_punct]
  exact Reads.advancing (Reads.answering (hoperand.mono (by simp; omega)))

theorem Undone.logical (op : LogicalOp) {left right : Expr} (hp : left.Printable)
    (hleft : Undone left) (hright : Undone right) : Undone (.logical op left right) := by
  have h3 := op.level_le_three
  refine .of_tier (t := .logical op) (by simp only [Tier.level]; omega) (fun k => rfl)
    ((hp.begins _ (by simp only [Tier.level]; omega)).append _) ?_
  have hlead := (hleft.leads (.logical op)).mono (n := 3 * (Expr.logical op left right).depth)
    (by simp; omega)
  refine hlead.join (by simp [Lexeme.hold_logical, Tier.bound]) ?_
  intro next hnext
  have hoperand := (hright.settles (op.level + 1) (by omega) (by
    cases op <;> decide)).operand (t := .logical op) (by simp only [Tier.level]; omega) hnext
  exact Reads.taking (Reads.answering (hoperand.mono (by simp; omega)))

theorem Undone.conditional {test consequent alternate : Expr} (htest : Undone test)
    (hconsequent : Undone consequent) (halternate : Undone alternate) :
    Undone (.conditional test consequent alternate) := by
  refine .of_loose (l := 1) (fun k => rfl) (by omega) ?_
  intro next hnext
  have h1 := (htest.settles 2 (by omega) (by omega) (.punct .question) (by decide)).mono
    (n := 3 * (Expr.conditional test consequent alternate).depth) (by simp; omega)
  have h2 := (hconsequent.settles 0 (by omega) (by omega) (.punct .colon) (by decide)).mono
    (n := 3 * (Expr.conditional test consequent alternate).depth) (by simp; omega)
  have h3 := (halternate.settles 0 (by omega) (by omega) next hnext).mono
    (n := 3 * (Expr.conditional test consequent alternate).depth) (by simp; omega)
  refine (Reads.nested (p := Grammar.assignmentBody) rfl (fun _ => rfl) ?_).mono (Nat.le_succ _)
  rw [← List.append_nil (_ ++ _)]
  refine Reads.bind (a := .conditional test consequent alternate) ?_ (Reads.peeking ?_)
  · refine Reads.bind h1 (Reads.taking ?_)
    refine Reads.bind h2 (Reads.expecting ?_)
    exact Reads.answering h3
  · simp only [List.headD_nil, Lexeme.assignment?_eq_none hnext]
    exact Reads.pure

theorem Undone.assign {op : Option BinaryOp}
    (hop : assignment? (.punct (assignmentPunct op)) = some op)
    (ha : target.isAssignable = true) (htarget : Undone target) (hvalue : Undone value) :
    Undone (.assign op target value) := by
  refine .of_loose (l := 0) (fun k => rfl) (by omega) ?_
  intro next hnext
  have h0 := (hvalue.settles 0 (by omega) (by omega) next hnext).mono
    (n := 3 * (Expr.assign op target value).depth + 1) (by simp; omega)
  have h2 := (htarget.settles 2 (by omega) (by omega)).mono
    (n := 3 * (Expr.assign op target value).depth + 1) (by simp; omega)
  rw [Expr.render_of_isAssignable ha (by omega),
    ← Expr.render_of_isAssignable ha (k := 1) (by omega)] at h2
  have hhold : (Lexeme.punct (assignmentPunct op)).hold ≤ 1 := by
    unfold assignmentPunct
    split <;> decide
  refine Reads.nested (p := Grammar.assignmentBody) rfl (fun _ => rfl) ?_
  refine Reads.bind (h2.conditional _ hhold) (Reads.peeking ?_)
  simp only [List.headD_cons, hop, ha]
  exact Reads.advancing (Reads.answering h0)

/-! ### Properties and calls -/

theorem Undone.linked {link : List Lexeme} {x : Lexeme} {calls : Bool} (hbase : Undone base)
    (hn : 3 * base.depth + 3 ≤ n)
    (hlink : ∀ next : Lexeme, Reads (fun g => g.link calls base) (x :: link) next n (.inl e)) :
    Leads (.chained calls) n (base.render (Tier.chained calls).level ++ x :: link) e :=
  ((hbase.leads (.chained calls)).mono hn).join (Lexeme.hold_le x) fun next _ => hlink next

theorem spine_of_le {k : Nat} (hk : k ≤ 10) : spine k = 10 := by
  simp [spine]
  omega

theorem spine_level (calls : Bool) :
    spine (Tier.chained calls).level = (Tier.chained calls).level := by
  cases calls <;> rfl

theorem reads_dot (calls : Bool) (property : String) (next : Lexeme) :
    Reads (fun g => g.link calls base) [.punct .dot, .name property] next n
      (.inl (.member base property)) := by
  refine Reads.taking ?_
  exact Reads.answering (Reads.peeking (Reads.advancing Reads.pure))

theorem Undone.member (property : String) (hp : base.Printable) (h : Undone base) :
    Undone (.member base property) := by
  have hrender : ∀ k ≤ 10, (Expr.member base property).render k =
      base.render 10 ++ [.punct .dot, .name property] := by
    intro k hk
    have h11 : ¬ 11 < k := by omega
    simp [Expr.render, guarded, h11, spine_of_le hk]
  refine .of_chained hrender ((hp.begins 10 (by omega)).append _) ?_
  intro calls
  have hlead := h.linked (n := 3 * (Expr.member base property).depth)
    (by simp; omega) (reads_dot calls property)
  have h11 : ¬ 11 < (Tier.chained calls).level := by cases calls <;> decide
  simpa [Expr.render, guarded, h11, spine_level] using hlead

theorem reads_bracket (calls : Bool) {key : Expr} (h : Undone key) (hn : 3 * key.depth + 3 ≤ n)
    (next : Lexeme) :
    Reads (fun g => g.link calls base)
      (.punct .openBracket :: (key.render 0 ++ [.punct .closeBracket])) next n
      (.inl (.index base key)) := by
  have hkey := (h.settles 0 (by omega) (by omega) (.punct .closeBracket) (by decide)).mono hn
  refine Reads.passing (by simp) (Reads.taking ?_)
  exact Reads.bind hkey (Reads.expecting Reads.pure)

theorem Undone.index {key : Expr} (hp : base.Printable) (h : Undone base) (hkey : Undone key) :
    Undone (.index base key) := by
  have hrender : ∀ k ≤ 10, (Expr.index base key).render k =
      base.render 10 ++ .punct .openBracket :: (key.render 0 ++ [.punct .closeBracket]) := by
    intro k hk
    have h11 : ¬ 11 < k := by omega
    simp [Expr.render, guarded, h11, spine_of_le hk]
  refine .of_chained hrender ((hp.begins 10 (by omega)).append _) ?_
  intro calls
  have hlead := h.linked (n := 3 * (Expr.index base key).depth)
    (by simp; omega) (reads_bracket calls hkey (by simp; omega))
  have h11 : ¬ 11 < (Tier.chained calls).level := by cases calls <;> decide
  simpa [Expr.render, guarded, h11, spine_level] using hlead

theorem Undone.call {args : List Expr} (hp : callee.Printable) (h : Undone callee)
    (hpargs : ∀ e ∈ args, e.Printable) (hargs : ∀ e ∈ args, Undone e) :
    Undone (.call callee args) := by
  refine .of_tier (t := .chained true) (by decide) (fun k => rfl)
    ((hp.begins 10 (by omega)).append _) ?_
  refine h.linked (by simp; omega) ?_
  intro next
  refine Reads.passing (by simp) (Reads.passing (by simp) (Reads.seeing ?_))
  exact Reads.answering (reads_arguments hpargs hargs (by simp; omega) next)

theorem Undone.construct {args : List Expr} (h : Undone callee)
    (hpargs : ∀ e ∈ args, e.Printable) (hargs : ∀ e ∈ args, Undone e) :
    Undone (.construct callee args) := by
  refine .of_tier (t := .chained true) (by decide) (fun k => rfl)
    (begins_cons (l := 10) rfl (by omega) (by decide)) ?_
  refine .first ?_
  intro next _
  have hcallee := ((h.leads (.chained false)).settles (.punct .openParen) (by decide)).mono
    (n := 3 * (Expr.construct callee args).depth) (by simp; omega)
  refine Reads.taking (Reads.bind hcallee (Reads.seeing ?_))
  exact Reads.answering (reads_arguments hpargs hargs (by simp; omega) next)

/-! ### Literals -/

theorem Undone.array {items : List Expr} (hp : ∀ e ∈ items, e.Printable)
    (h : ∀ e ∈ items, Undone e) : Undone (.array items) := by
  refine .of_atom (fun k => rfl) (begins_cons (l := 12) rfl (by omega) (by omega)) ?_
  intro next
  refine Reads.peeking (Reads.advancing (Reads.answering ?_))
  exact reads_items hp h (by simp; omega) (by decide) (by decide) next

theorem Undone.object {entries : List (String × Expr)} (h : ∀ p ∈ entries, Undone p.2) :
    Undone (.object entries) := by
  refine .of_atom (fun k => rfl) (begins_cons (l := 12) rfl (by omega) (by omega)) ?_
  intro next
  refine Reads.peeking (Reads.advancing (Reads.answering ?_))
  exact reads_entries h (by simp; omega) next

end Forms

/-! ## All expressions -/

theorem Expr.Printable.undone {e : Expr} (h : e.Printable) : Undone e := by
  have literal : ∀ {e : Expr} {x : Lexeme}, (∀ k, e.render k = [x]) → x.reach = 12 →
      (∀ next : Lexeme, Reads Grammar.primary [x] next (3 * e.depth) e) → Undone e :=
    fun hrender hx => .of_atom hrender (begins_cons hx (by omega) (by omega))
  induction h with
  | number | string | null | undefined | this | name =>
      exact literal (fun k => rfl) rfl fun next => Reads.peeking (Reads.advancing Reads.pure)
  | bool b =>
      cases b <;>
        exact literal (fun k => rfl) rfl fun next => Reads.peeking (Reads.advancing Reads.pure)
  | array hp ih => exact .array hp ih
  | object _ ih => exact .object ih
  | unary op _ ih => exact .unary op ih
  | binary op hp _ ihleft ihright => exact .binary op hp ihleft ihright
  | logical op hp _ ihleft ihright => exact .logical op hp ihleft ihright
  | conditional _ _ _ ihtest ihconsequent ihalternate =>
      exact .conditional ihtest ihconsequent ihalternate
  | assign hop ha _ _ ihtarget ihvalue => exact .assign hop ha ihtarget ihvalue
  | update increment before ha hp ih =>
      cases before with
      | true => exact .updateBefore increment ha ih
      | false => exact .updateBehind increment ha hp ih
  | member property hp ih => exact .member property hp ih
  | index hp _ ihobject ihkey => exact .index hp ihobject ihkey
  | call hp hpargs ih ihargs => exact .call hp ih hpargs ihargs
  | construct _ hpargs ih ihargs => exact .construct ih hpargs ihargs

/--
What stands behind the expression is left alone. Three levels are nested at most for each of the
expression's own, so one of sixty-four is always read.
-/
theorem Expr.Printable.parsed_back {e : Expr} (h : e.Printable) (line : Nat) (stop : Token)
    (rest : List Token) (hstop : stop.lexeme = .punct .semicolon ∨ stop.lexeme = .stop) :
    ((∃ s, Grammar.full.expression (.ofTokens (written line (e.render 0) ++ stop :: rest)) =
        .ok e s ∧ s.tokens = stop :: rest) ∨
      ∃ fault s, Grammar.full.expression (.ofTokens (written line (e.render 0) ++ stop :: rest)) =
        .error fault s ∧ fault.message = "Maximum nesting depth exceeded") ∧
    (e.depth ≤ 64 →
      ∃ s, Grammar.full.expression (.ofTokens (written line (e.render 0) ++ stop :: rest)) =
        .ok e s ∧ s.tokens = stop :: rest) := by
  have hhold : stop.lexeme.hold ≤ 0 := by
    rcases hstop with hstop | hstop <;> simp [hstop, Lexeme.hold]
  have hstart : Stream.ofTokens (written line (e.render 0) ++ stop :: rest) =
      ⟨line, written line (e.render 0) ++ stop :: rest, 0, .zero⟩ := by
    obtain ⟨x, xs, hx, -⟩ := h.begins 0 (by omega)
    simp [Stream.ofTokens, written, hx]
  have hread := h.undone.settles 0 (by omega) (by omega) stop.lexeme hhold nestingLimit line stop
    rest 0 .zero rfl (by simp [Gauge.zero])
  rw [hstart]
  rcases hread with ⟨peak, hok⟩ | ⟨hdeep, last, s, herror⟩
  · exact ⟨.inl ⟨_, hok, rfl⟩, fun _ => ⟨_, hok, rfl⟩⟩
  · refine ⟨.inr ⟨_, s, herror, rfl⟩, fun hdepth => ?_⟩
    simp only [nestingLimit] at hdeep
    omega

theorem Expr.Printable.difference_parsed_back :
    ∃ s, Grammar.full.expression (.ofTokens (written 1
        [.name "a", .punct .minus, .punct .openParen, .name "b", .punct .minus, .name "c",
          .punct .closeParen] ++ [⟨.stop, 2⟩])) =
      .ok (.binary .subtract (.name "a") (.binary .subtract (.name "b") (.name "c"))) s ∧
      s.tokens = [⟨.stop, 2⟩] :=
  (Expr.Printable.parsed_back
    (.binary .subtract (.name "a") (.binary .subtract (.name "b") (.name "c"))) 1 ⟨.stop, 2⟩ []
    (.inr rfl)).2 (by decide)

end ScriptHost.Source

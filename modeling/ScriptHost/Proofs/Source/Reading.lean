import ScriptHost.Proofs.Source.Rendering
import ScriptHost.Source.Program

/-!
What it means that a parser reads tokens. It takes all of them and answers, or the nesting limit
stops it. How many more levels have to be left for the answer is part of the statement.
-/

namespace ScriptHost.Source

open Grammar Parsing

def written (line : Nat) (lexemes : List Lexeme) : List Token :=
  lexemes.map (⟨·, line⟩)

/--
The tokens stand on one line, in front of the lexeme given. As many levels may be nested as the
depth of the grammar says.
-/
def Reads (p : Grammar → Parsing α) (lexemes : List Lexeme) (next : Lexeme) (need : Nat) (a : α) :
    Prop :=
  ∀ (depth line : Nat) (stop : Token) (rest : List Token) (loops : Nat) (gauge : Gauge),
    stop.lexeme = next → gauge.level + depth = nestingLimit →
    (∃ peak, p (.ofDepth depth) ⟨line, written line lexemes ++ stop :: rest, loops, gauge⟩ =
      .ok a ⟨line, stop :: rest, loops, ⟨gauge.level, peak⟩⟩) ∨
    (depth < need ∧ ∃ last s,
      p (.ofDepth depth) ⟨line, written line lexemes ++ stop :: rest, loops, gauge⟩ =
        .error ⟨.tooDeep, last⟩ s)

namespace Reads

variable {α β : Type} {p : Grammar → Parsing α} {q : α → Grammar → Parsing β}
variable {xs ys : List Lexeme} {x next : Lexeme} {m n : Nat} {a : α} {b : β}

theorem mono (h : Reads p xs next m a) (hmn : m ≤ n) : Reads p xs next n a := by
  intro depth line stop rest loops gauge hstop hlevel
  rcases h depth line stop rest loops gauge hstop hlevel with hok | ⟨hdepth, herror⟩
  · exact .inl hok
  · exact .inr ⟨by omega, herror⟩

theorem pure : Reads (fun _ => Pure.pure a) [] next n a := by
  intro depth line stop rest loops gauge _ _
  exact .inl ⟨gauge.peak, rfl⟩

/-- In front of the second tokens stands their first one, or what stands behind all of them. -/
theorem bind (hp : Reads p xs (ys.headD next) n a) (hq : Reads (q a) ys next n b) :
    Reads (fun g => p g >>= fun a => q a g) (xs ++ ys) next n b := by
  intro depth line stop rest loops gauge hstop hlevel
  obtain ⟨first, others, hsplit, hfirst⟩ : ∃ (first : Token) (others : List Token),
      written line ys ++ stop :: rest = first :: others ∧ first.lexeme = ys.headD next := by
    cases ys with
    | nil => exact ⟨stop, rest, rfl, hstop⟩
    | cons y ys => exact ⟨⟨y, line⟩, written line ys ++ stop :: rest, rfl, rfl⟩
  have hjoin : written line (xs ++ ys) ++ stop :: rest = written line xs ++ first :: others := by
    simp [written, ← hsplit]
  rw [hjoin]
  rcases hp depth line first others loops gauge hfirst hlevel with
    ⟨peak, hok⟩ | ⟨hdepth, last, s, herror⟩
  · have hsecond := hq depth line stop rest loops ⟨gauge.level, peak⟩ hstop hlevel
    rw [hsplit] at hsecond
    simpa only [Bind.bind, EStateM.bind, hok] using hsecond
  · exact .inr ⟨hdepth, last, s, by simp [Bind.bind, EStateM.bind, herror]⟩

theorem peek : Reads (fun _ => Parsing.peek) [] next n next := by
  intro depth line stop rest loops gauge hstop _
  subst hstop
  exact .inl ⟨gauge.peak, rfl⟩

theorem advance : Reads (fun _ => Parsing.advance) [x] next n () := by
  intro depth line stop rest loops gauge _ _
  exact .inl ⟨gauge.peak, rfl⟩

theorem takes : Reads (fun _ => Parsing.takes x) [x] next n true := by
  intro depth line stop rest loops gauge _ _
  exact .inl ⟨gauge.peak, by simp [Parsing.takes, written, Stream.lexeme, Stream.token,
    Stream.advance, Stream.line]⟩

theorem passes (h : next ≠ x) : Reads (fun _ => Parsing.takes x) [] next n false := by
  intro depth line stop rest loops gauge hstop _
  subst hstop
  exact .inl ⟨gauge.peak, by simp [Parsing.takes, written, Stream.lexeme, Stream.token, h]⟩

theorem sees (p : Punct) : Reads (fun _ => Parsing.sees p) [] next n (next = .punct p) := by
  intro depth line stop rest loops gauge hstop _
  subst hstop
  exact .inl ⟨gauge.peak, rfl⟩

theorem expect (p : Punct) : Reads (fun _ => Parsing.expect p) [.punct p] next n () :=
  bind takes pure

/-! ## Steps in front of others -/

theorem peeking {q : Lexeme → Grammar → Parsing β} (h : Reads (q (xs.headD next)) xs next n b) :
    Reads (fun g => Parsing.peek >>= fun x => q x g) xs next n b :=
  bind peek h

theorem advancing {q : Unit → Grammar → Parsing β} (h : Reads (q ()) xs next n b) :
    Reads (fun g => Parsing.advance >>= fun u => q u g) (x :: xs) next n b :=
  bind advance h

theorem taking {q : Bool → Grammar → Parsing β} (h : Reads (q true) xs next n b) :
    Reads (fun g => Parsing.takes x >>= fun b => q b g) (x :: xs) next n b :=
  bind takes h

theorem passing {q : Bool → Grammar → Parsing β} (hx : xs.headD next ≠ x)
    (h : Reads (q false) xs next n b) :
    Reads (fun g => Parsing.takes x >>= fun b => q b g) xs next n b :=
  bind (passes hx) h

theorem seeing {q : Bool → Grammar → Parsing β} {p : Punct}
    (h : Reads (q (xs.headD next = .punct p)) xs next n b) :
    Reads (fun g => Parsing.sees p >>= fun b => q b g) xs next n b :=
  bind (sees p) h

theorem expecting {q : Unit → Grammar → Parsing β} {p : Punct} (h : Reads (q ()) xs next n b) :
    Reads (fun g => Parsing.expect p >>= fun u => q u g) (.punct p :: xs) next n b :=
  bind (expect p) h

theorem answering (h : Reads p xs next n a) {f : α → β} :
    Reads (fun g => p g >>= fun a => Pure.pure (f a)) xs next n (f a) := by
  rw [← List.append_nil xs]
  exact bind h pure

theorem onOneLine {q : Bool → Grammar → Parsing β} (h : Reads (q false) (x :: xs) next n b) :
    Reads (fun g => Parsing.afterLineBreak >>= fun b => q b g) (x :: xs) next n b := by
  intro depth line stop rest loops gauge hstop hlevel
  have hline : Parsing.afterLineBreak
      ⟨line, written line (x :: xs) ++ stop :: rest, loops, gauge⟩ =
        .ok false ⟨line, written line (x :: xs) ++ stop :: rest, loops, gauge⟩ := by
    simp [Parsing.afterLineBreak, written, Stream.line, Stream.token]
  simpa only [Bind.bind, EStateM.bind, hline] using
    h depth line stop rest loops gauge hstop hlevel

/-- One more level is needed where the grammar of the next depth is entered. -/
theorem nested {p q : Grammar → Parsing α} (hnone : q exhausted = fail .tooDeep)
    (hdeeper : ∀ g, q (deeper g) = nested (p g)) (h : Reads p xs next n a) :
    Reads q xs next (n + 1) a := by
  intro depth line stop rest loops gauge hstop hlevel
  cases depth with
  | zero => exact .inr ⟨by omega, _, _, by simp only [ofDepth, hnone]; rfl⟩
  | succ depth =>
      have hroom : ¬ nestingLimit ≤ gauge.level := by omega
      have hinner := h depth line stop rest loops gauge.enter hstop (by simp; omega)
      rcases hinner with ⟨peak, hok⟩ | ⟨hdepth, last, s, herror⟩
      · refine .inl ⟨peak, ?_⟩
        simp [ofDepth, hdeeper, Parsing.nested, hroom, hok, Gauge.leave]
      · refine .inr ⟨by omega, last, { s with nesting := s.nesting.leave }, ?_⟩
        simp [ofDepth, hdeeper, Parsing.nested, hroom, herror]

end Reads

/-! ## Repetition -/

section Rounds

variable {σ α : Type} {step : Grammar → σ → Parsing (σ ⊕ α)} {next : Lexeme} {n : Nat}

/-- Rounds of a repeated step that read the tokens, each of them one at least. -/
inductive Rounds (step : Grammar → σ → Parsing (σ ⊕ α)) (next : Lexeme) (n : Nat) :
    σ → List Lexeme → α → Prop
  | stop {s xs a} : Reads (step · s) xs next n (.inr a) → Rounds step next n s xs a
  | go {s s' xs ys a} : xs ≠ [] → Reads (step · s) xs (ys.headD next) n (.inl s') →
      Rounds step next n s' ys a → Rounds step next n s (xs ++ ys) a

theorem Reads.round {s : σ} {r : σ ⊕ α} {xs ys : List Lexeme} {a : α} {token : Token}
    {bound : List Token} (h : Reads (step · s) xs (ys.headD next) n r)
    (hr : Reads (fun g => match r with
      | .inl s => repeatAlong (step g) bound s
      | .inr a => Pure.pure a) ys next n a) :
    Reads (fun g => repeatAlong (step g) (token :: bound) s) (xs ++ ys) next n a :=
  Reads.bind (q := fun (r : σ ⊕ α) g => match r with
    | .inl s => repeatAlong (step g) bound s
    | .inr a => Pure.pure a) h hr

theorem Rounds.along {s : σ} {xs : List Lexeme} {a : α} (h : Rounds step next n s xs a) :
    ∀ bound : List Token, xs.length < bound.length →
      Reads (fun g => repeatAlong (step g) bound s) xs next n a := by
  -- on the rounds; the bound lasts because each of them reads a token
  induction h with
  | @stop s xs a hstop =>
      intro bound hbound
      cases bound with
      | nil => simp at hbound
      | cons token bound =>
          rw [← List.append_nil xs]
          exact Reads.round hstop Reads.pure
  | go hne hstep _ ih =>
      intro bound hbound
      cases bound with
      | nil => simp at hbound
      | cons token bound =>
          have hpos := List.length_pos_iff.mpr hne
          simp only [List.length_append, List.length_cons] at hbound
          exact Reads.round hstep (ih bound (by omega))

theorem Rounds.reads {s : σ} {xs : List Lexeme} {a : α} (h : Rounds step next n s xs a) :
    Reads (fun g => repeatUntil (step g) s) xs next n a := by
  intro depth line stop rest loops gauge
  exact h.along (written line xs ++ stop :: rest) (by simp [written]) depth line stop rest loops
    gauge

end Rounds

/-! ## Items between commas -/

section Sequence

variable {α : Type} {item : Grammar → Parsing α} {tokens : α → List Lexeme} {close : Punct}
variable {next : Lexeme} {n : Nat}

/-- An item whose tokens are not taken for the end of the items. -/
structure Listed (item : Grammar → Parsing α) (tokens : α → List Lexeme) (close : Punct) (n : Nat)
    (a : α) : Prop where
  starts : ∃ x xs, tokens a = x :: xs ∧ x ≠ .punct close
  reads : ∀ stop, stop = .comma ∨ stop = close → Reads item (tokens a) (.punct stop) n a

theorem Listed.last {a : α} (h : Listed item tokens close n a) (hclose : close ≠ .comma)
    (found : Array α) :
    Reads (fun g => sequenceStep close (item g) found) (tokens a ++ [.punct close]) next n
      (.inr (found.toList ++ [a])) := by
  obtain ⟨x, xs, hx, hne⟩ := h.starts
  refine Reads.passing (by simpa [hx] using hne) ?_
  refine Reads.bind (h.reads close (.inr rfl)) ?_
  refine Reads.passing (by simpa using hclose) ?_
  refine Reads.expecting ?_
  simpa using Reads.pure

theorem Listed.notLast {a : α} (h : Listed item tokens close n a) (found : Array α) :
    Reads (fun g => sequenceStep close (item g) found) (tokens a ++ [.punct .comma]) next n
      (.inl (found.push a)) := by
  obtain ⟨x, xs, hx, hne⟩ := h.starts
  refine Reads.passing (by simpa [hx] using hne) ?_
  refine Reads.bind (h.reads .comma (.inl rfl)) ?_
  exact Reads.taking Reads.pure

theorem Listed.rounds (hclose : close ≠ .comma) :
    ∀ (items : List α) (found : Array α), (∀ a ∈ items, Listed item tokens close n a) →
      Rounds (fun g => sequenceStep close (item g)) next n found
        (separated (items.map tokens) ++ [.punct close]) (found.toList ++ items) := by
  intro items
  induction items with
  | nil =>
      intro found _
      refine .stop (Reads.taking ?_)
      simpa using Reads.pure
  | cons a items ih =>
      intro found h
      have ha := h a List.mem_cons_self
      have hitems : ∀ b ∈ items, Listed item tokens close n b :=
        fun b hb => h b (List.mem_cons_of_mem a hb)
      cases items with
      | nil => simpa [separated] using Rounds.stop (ha.last hclose found)
      | cons b items =>
          have hgo := Rounds.go (by simp) (ha.notLast found) (ih (found.push a) hitems)
          simpa [separated, List.intercalate] using hgo

theorem Reads.sequence {items : List α} (hclose : close ≠ .comma)
    (h : ∀ a ∈ items, Listed item tokens close n a) :
    Reads (fun g => sequence close (item g)) (separated (items.map tokens) ++ [.punct close]) next n
      items :=
  (Listed.rounds hclose items #[] h).reads

end Sequence

end ScriptHost.Source

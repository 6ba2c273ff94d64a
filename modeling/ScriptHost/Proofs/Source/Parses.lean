import ScriptHost.Source.Program

/-!
What holds whenever a parser comes back, with an answer or a fault. It stands on the tokens of the
text where it stood or further on and never behind the last, in as many loops and as deeply nested
as before. Two parsers that need not know of each other's limits are shown at once to do the same.
-/

namespace ScriptHost.Source

/-- The last token is the end of the text, and no other is. -/
inductive Ended : List Token → Prop
  | stop {token : Token} : token.lexeme = .stop → Ended [token]
  | cons {token : Token} {tokens : List Token} :
      token.lexeme ≠ .stop → Ended tokens → Ended (token :: tokens)

/-- What stays as it is while a part of a program is parsed. -/
structure Setting where
  tokens : List Token
  loops : Nat
  level : Nat

namespace Stream

/-- The position in the tokens is behind those taken; the line of the last of them is known. -/
structure Within (s : Stream) (c : Setting) : Prop where
  ended : Ended s.tokens
  position : ∃ taken, taken ++ s.tokens = c.tokens ∧
    ∀ token ∈ taken.getLast?.or s.tokens.head?, s.previous = token.line
  loops : s.loops = c.loops
  level : s.nesting.level = c.level
  room : c.level ≤ nestingLimit
  peak : s.nesting.peak ≤ nestingLimit

/-- Faults are found at the next token, but those of a word that leaves a loop at the word. -/
def faultLine (s : Stream) : Cause → Nat
  | .strayBreak | .strayContinue => s.previous
  | _ => s.line

theorem faultLine_congr {s t : Stream} (htokens : s.tokens = t.tokens)
    (hprevious : s.previous = t.previous) (cause : Cause) :
    s.faultLine cause = t.faultLine cause := by
  simp only [faultLine, line, token, htokens, hprevious]

end Stream

section Ended

variable {tokens : List Token} {token : Token}

theorem Ended.head (h : Ended (token :: tokens)) (hne : token.lexeme ≠ .stop) : Ended tokens := by
  cases h with
  | stop hstop => exact absurd hstop hne
  | cons _ hrest => exact hrest

theorem Ended.exists_cons (h : Ended tokens) : ∃ token rest, tokens = token :: rest := by
  cases h with
  | stop _ => exact ⟨_, _, rfl⟩
  | cons _ _ => exact ⟨_, _, rfl⟩

end Ended

namespace Stream.Within

variable {s : Stream} {c : Setting}

theorem token_mem (hs : s.Within c) : s.token ∈ c.tokens := by
  obtain ⟨taken, htokens, -⟩ := hs.position
  obtain ⟨token, rest, hcons⟩ := hs.ended.exists_cons
  rw [← htokens, hcons, Stream.token, hcons]
  simp

theorem faultLine_mem (hs : s.Within c) (cause : Cause) :
    ∃ token ∈ c.tokens, token.line = s.faultLine cause := by
  have hprevious : ∃ token ∈ c.tokens, token.line = s.previous := by
    obtain ⟨taken, htokens, hprevious⟩ := hs.position
    obtain ⟨first, rest, hcons⟩ := hs.ended.exists_cons
    cases hlast : taken.getLast? with
    | none =>
      refine ⟨first, ?_, (hprevious first ?_).symm⟩
      · rw [← htokens, hcons]
        simp
      · rw [hlast, hcons]
        rfl
    | some last =>
      refine ⟨last, ?_, (hprevious last ?_).symm⟩
      · rw [← htokens]
        exact List.mem_append_left _ (List.mem_of_getLast? hlast)
      · rw [hlast]
        rfl
  cases cause with
  | strayBreak | strayContinue => exact hprevious
  | _ => exact ⟨s.token, hs.token_mem, rfl⟩

theorem advance (hs : s.Within c) (hne : s.lexeme ≠ .stop) :
    s.advance.Within c ∧ s.advance.tokens.length < s.tokens.length := by
  obtain ⟨taken, htokens, -⟩ := hs.position
  obtain ⟨token, rest, hcons⟩ := hs.ended.exists_cons
  have htoken : s.token = token := by rw [Stream.token, hcons, List.headD_cons]
  rw [Stream.lexeme, htoken] at hne
  have hrest : s.advance.tokens = rest := by rw [Stream.advance, hcons, List.tail_cons]
  refine ⟨⟨?_, ⟨taken ++ [token], ?_, ?_⟩, hs.loops, hs.level, hs.room, hs.peak⟩, ?_⟩
  · rw [hrest]
    exact (hcons ▸ hs.ended).head hne
  · rw [hrest, List.append_assoc, List.singleton_append, ← hcons, htokens]
  · intro last hlast
    rw [List.getLast?_concat] at hlast
    obtain rfl := Option.some.inj hlast
    exact congrArg Token.line htoken
  · rw [hrest, hcons]
    exact Nat.lt_succ_self _

end Stream.Within

/-! ## One result -/

def Yields (c : Setting) (s : Stream) (Q : α → Stream → Prop) :
    EStateM.Result Fault Stream α → Prop
  | .ok a t => t.Within c ∧ t.tokens.length ≤ s.tokens.length ∧ Q a t
  | .error fault t =>
      t.Within c ∧ t.tokens.length ≤ s.tokens.length ∧ fault.line = t.faultLine fault.cause

/-- Both parsers do the same. -/
def Parses (c : Setting) (p p' : Parsing α) (s : Stream) (Q : α → Stream → Prop) : Prop :=
  p' s = p s ∧ Yields c s Q (p s)

/-- The answer satisfies the condition, and a token has been taken at least. -/
def Took (s : Stream) (P : α → Prop) (a : α) (t : Stream) : Prop :=
  t.tokens.length < s.tokens.length ∧ P a

namespace Parses

variable {α β : Type} {c : Setting} {s : Stream} {p p' : Parsing α} {q q' : α → Parsing β}
variable {Q Q' : α → Stream → Prop} {R : β → Stream → Prop} {a : α}

theorem mono (h : Parses c p p' s Q)
    (hmono : ∀ a t, t.tokens.length ≤ s.tokens.length → Q a t → Q' a t) : Parses c p p' s Q' := by
  obtain ⟨hsame, hyields⟩ := h
  refine ⟨hsame, ?_⟩
  cases hp : p s with
  | ok a t =>
    rw [hp] at hyields
    obtain ⟨ht, hle, hQ⟩ := hyields
    exact ⟨ht, hle, hmono a t hle hQ⟩
  | error fault t =>
    rw [hp] at hyields
    exact hyields

theorem pure (hs : s.Within c) (h : Q a s) : Parses c (Pure.pure a) (Pure.pure a) s Q :=
  ⟨rfl, hs, Nat.le_refl _, h⟩

theorem bind (hp : Parses c p p' s Q)
    (hq : ∀ a t, t.Within c → t.tokens.length ≤ s.tokens.length → Q a t →
      Parses c (q a) (q' a) t R) :
    Parses c (p >>= q) (p' >>= q') s R := by
  obtain ⟨hsame, hyields⟩ := hp
  simp only [Parses, Bind.bind, EStateM.bind, hsame]
  cases hrun : p s with
  | error fault t =>
    rw [hrun] at hyields
    exact ⟨rfl, hyields⟩
  | ok a t =>
    rw [hrun] at hyields
    obtain ⟨ht, hle, hQ⟩ := hyields
    obtain ⟨hsame', hyields'⟩ := hq a t ht hle hQ
    refine ⟨hsame', ?_⟩
    dsimp only
    cases hrun' : q a t with
    | ok b u =>
      rw [hrun'] at hyields'
      obtain ⟨hu, hle', hR⟩ := hyields'
      exact ⟨hu, Nat.le_trans hle' hle, hR⟩
    | error fault u =>
      rw [hrun'] at hyields'
      obtain ⟨hu, hle', hfault⟩ := hyields'
      exact ⟨hu, Nat.le_trans hle' hle, hfault⟩

theorem map {f : α → β} (hp : Parses c p p' s Q)
    (hf : ∀ a t, t.tokens.length ≤ s.tokens.length → Q a t → R (f a) t) :
    Parses c (f <$> p) (f <$> p') s R := by
  have hpure : ∀ a t, t.Within c → t.tokens.length ≤ s.tokens.length → Q a t →
      Parses c (Pure.pure (f a)) (Pure.pure (f a)) t R :=
    fun a t ht hle hQ => .pure ht (hf a t hle hQ)
  exact hp.bind hpure

/-! ### Looking at tokens and taking them -/

theorem failed (hs : s.Within c) {fault : Fault} (hline : fault.line = s.faultLine fault.cause)
    (hrun : p s = .error fault s) (hrun' : p' s = .error fault s) : Parses c p p' s Q := by
  rw [Parses, hrun, hrun']
  exact ⟨rfl, hs, Nat.le_refl _, hline⟩

theorem fail (hs : s.Within c) {cause : Cause} (hline : s.faultLine cause = s.line) :
    Parses c (Parsing.fail cause) (Parsing.fail cause) s Q :=
  .failed hs hline.symm rfl rfl

theorem unexpected (hs : s.Within c) : Parses c Parsing.unexpected Parsing.unexpected s Q :=
  .failed hs rfl rfl rfl

theorem peeking {q q' : Lexeme → Parsing β} (h : Parses c (q s.lexeme) (q' s.lexeme) s R) :
    Parses c (Parsing.peek >>= q) (Parsing.peek >>= q') s R :=
  h

theorem reading {q q' : Nat → Parsing β} (h : Parses c (q s.line) (q' s.line) s R) :
    Parses c (Parsing.line >>= q) (Parsing.line >>= q') s R :=
  h

theorem seeing {punct : Punct} {q q' : Bool → Parsing β}
    (h : ∀ found, Parses c (q found) (q' found) s R) :
    Parses c (Parsing.sees punct >>= q) (Parsing.sees punct >>= q') s R :=
  h _

theorem looking {q q' : Bool → Parsing β} (h : ∀ found, Parses c (q found) (q' found) s R) :
    Parses c (Parsing.atEnd >>= q) (Parsing.atEnd >>= q') s R :=
  h _

theorem ending {q q' : Bool → Parsing β} (hyes : s.lexeme = .stop → Parses c (q true) (q' true) s R)
    (hno : s.lexeme ≠ .stop → Parses c (q false) (q' false) s R) :
    Parses c (Parsing.atEnd >>= q) (Parsing.atEnd >>= q') s R := by
  have hrun : ∀ {q : Bool → Parsing β},
      (Parsing.atEnd >>= q) s = q (decide (s.lexeme = .stop)) s := rfl
  rw [Parses, hrun, hrun]
  by_cases h : s.lexeme = .stop
  · rw [decide_eq_true h]
    exact hyes h
  · rw [decide_eq_false h]
    exact hno h

theorem breaking {q q' : Bool → Parsing β} (h : ∀ found, Parses c (q found) (q' found) s R) :
    Parses c (Parsing.afterLineBreak >>= q) (Parsing.afterLineBreak >>= q') s R :=
  h _

theorem advance (hs : s.Within c) (hne : s.lexeme ≠ .stop) :
    Parses c Parsing.advance Parsing.advance s fun _ t =>
      t = s.advance ∧ t.tokens.length < s.tokens.length :=
  have hadvance := hs.advance hne
  ⟨rfl, hadvance.1, Nat.le_of_lt hadvance.2, rfl, hadvance.2⟩

theorem advancing (hs : s.Within c) (hne : s.lexeme ≠ .stop) {q q' : Unit → Parsing β}
    (h : ∀ t, t.Within c → t.tokens.length < s.tokens.length → Parses c (q ()) (q' ()) t R) :
    Parses c (Parsing.advance >>= q) (Parsing.advance >>= q') s R :=
  (advance hs hne).bind fun _ t ht _ hadvance => h t ht hadvance.2

theorem takes (hs : s.Within c) {lexeme : Lexeme} (hne : lexeme ≠ .stop) :
    Parses c (Parsing.takes lexeme) (Parsing.takes lexeme) s
      fun found t => if found then t.tokens.length < s.tokens.length else t = s := by
  refine ⟨rfl, ?_⟩
  unfold Parsing.takes
  split
  · next heq =>
    have hadvance := hs.advance (heq ▸ hne)
    exact ⟨hadvance.1, Nat.le_of_lt hadvance.2, hadvance.2⟩
  · exact ⟨hs, Nat.le_refl _, rfl⟩

theorem taking (hs : s.Within c) {lexeme : Lexeme} {q q' : Bool → Parsing β}
    (hne : lexeme ≠ .stop)
    (hyes : ∀ t, t.Within c → t.tokens.length < s.tokens.length →
      Parses c (q true) (q' true) t R)
    (hno : Parses c (q false) (q' false) s R) :
    Parses c (Parsing.takes lexeme >>= q) (Parsing.takes lexeme >>= q') s R := by
  refine (takes hs hne).bind fun found t ht hle hfound => ?_
  cases found with
  | true => exact hyes t ht hfound
  | false =>
    obtain rfl : t = s := hfound
    exact hno

theorem expect (hs : s.Within c) (punct : Punct) :
    Parses c (Parsing.expect punct) (Parsing.expect punct) s (Took s fun _ => True) :=
  .taking hs nofun (fun _ ht hlt => .pure ht ⟨hlt, trivial⟩) (.unexpected hs)

theorem expecting (hs : s.Within c) {punct : Punct} {q q' : Unit → Parsing β}
    (h : ∀ t, t.Within c → t.tokens.length < s.tokens.length → Parses c (q ()) (q' ()) t R) :
    Parses c (Parsing.expect punct >>= q) (Parsing.expect punct >>= q') s R :=
  (expect hs punct).bind fun _ t ht _ htook => h t ht htook.1

theorem expectName (hs : s.Within c) :
    Parses c Parsing.expectName Parsing.expectName s (Took s fun _ => True) := by
  refine peeking ?_
  cases hnext : s.lexeme with
  | name x =>
    exact .advancing hs (hnext ▸ nofun) fun t ht hlt => .pure ht ⟨hlt, trivial⟩
  | _ => exact .unexpected hs

/-! ### Deeper, in loops and in functions -/

/-- Around the part, only what is counted changes, and it is changed back. -/
theorem around {P : α → Prop} {wrap : Parsing α → Parsing α} (c' : Setting)
    (enter leave : Stream → Stream)
    (hwrap : ∀ p, wrap p s = match p (enter s) with
      | .ok a t => .ok a (leave t)
      | .error fault t => .error fault (leave t))
    (henter : (enter s).tokens = s.tokens)
    (hleave : ∀ t, (leave t).tokens = t.tokens ∧ (leave t).previous = t.previous)
    (hback : ∀ t, t.Within c' → (leave t).Within c)
    (h : Parses c' p p' (enter s) (Took (enter s) P)) :
    Parses c (wrap p) (wrap p') s (Took s P) := by
  obtain ⟨hsame, hyields⟩ := h
  rw [Parses, hwrap, hwrap, hsame]
  refine ⟨rfl, ?_⟩
  cases hrun : p (enter s) with
  | ok a t =>
    rw [hrun] at hyields
    obtain ⟨ht, hle, hlt, hP⟩ := hyields
    rw [henter, ← (hleave t).1] at hlt
    exact ⟨hback t ht, Nat.le_of_lt hlt, hlt, hP⟩
  | error fault t =>
    rw [hrun] at hyields
    obtain ⟨ht, hle, hfault⟩ := hyields
    rw [henter, ← (hleave t).1] at hle
    have hline := Stream.faultLine_congr (hleave t).1 (hleave t).2 fault.cause
    exact ⟨hback t ht, hle, hfault.trans hline.symm⟩

theorem nested {P : α → Prop}
    (h : ∀ t : Stream, t = { s with nesting := s.nesting.enter } →
      t.Within { c with level := c.level + 1 } →
      Parses { c with level := c.level + 1 } p p' t (Took t P)) (hs : s.Within c) :
    Parses c (Parsing.nested p) (Parsing.nested p') s (Took s P) := by
  by_cases hfull : nestingLimit ≤ s.nesting.level
  · have hrun : ∀ p : Parsing α, Parsing.nested p s = .error ⟨.tooDeep, s.line⟩ s :=
      fun _ => if_pos hfull
    exact .failed hs rfl (hrun p) (hrun p')
  · have hlevel := hs.level
    have hroom : c.level + 1 ≤ nestingLimit := by omega
    refine around { c with level := c.level + 1 }
      (fun s => { s with nesting := s.nesting.enter })
      (fun s => { s with nesting := s.nesting.leave })
      (fun p => if_neg hfull) rfl (fun _ => ⟨rfl, rfl⟩) ?_ (h _ rfl ?_)
    · intro t ht
      exact ⟨ht.ended, ht.position, ht.loops, by simp [ht.level], hs.room, ht.peak⟩
    · exact ⟨hs.ended, hs.position, hs.loops, congrArg (· + 1) hlevel, hroom,
        Nat.max_le.2 ⟨hs.peak, hlevel ▸ hroom⟩⟩

theorem inLoop {P : α → Prop}
    (h : ∀ s, s.Within { c with loops := c.loops + 1 } →
      Parses { c with loops := c.loops + 1 } p p' s (Took s P)) (hs : s.Within c) :
    Parses c (Parsing.inLoop p) (Parsing.inLoop p') s (Took s P) := by
  refine around { c with loops := c.loops + 1 } (fun s => { s with loops := s.loops + 1 })
    (fun s => { s with loops := s.loops - 1 }) (fun p => rfl) rfl (fun _ => ⟨rfl, rfl⟩) ?_ (h _ ?_)
  · intro t ht
    exact ⟨ht.ended, ht.position, by simp [ht.loops], ht.level, ht.room, ht.peak⟩
  · exact ⟨hs.ended, hs.position, congrArg (· + 1) hs.loops, hs.level, hs.room, hs.peak⟩

theorem inFunction {P : α → Prop}
    (h : ∀ s, s.Within { c with loops := 0 } →
      Parses { c with loops := 0 } p p' s (Took s P)) (hs : s.Within c) :
    Parses c (Parsing.inFunction p) (Parsing.inFunction p') s (Took s P) := by
  refine around { c with loops := 0 } (fun s => { s with loops := 0 })
    (fun t => { t with loops := s.loops }) (fun p => rfl) rfl (fun _ => ⟨rfl, rfl⟩) ?_ (h _ ?_)
  · intro t ht
    exact ⟨ht.ended, ht.position, hs.loops, ht.level, ht.room, ht.peak⟩
  · exact ⟨hs.ended, hs.position, rfl, hs.level, hs.room, hs.peak⟩

end Parses

/-! ## Repetition -/

/-- A round takes a token whenever it does not answer. -/
def Round (I : σ → Prop) (Q : α → Stream → Prop) (s : Stream) : σ ⊕ α → Stream → Prop
  | .inl state, t => t.tokens.length < s.tokens.length ∧ I state
  | .inr a, t => Q a t

def Advances (c : Setting) (step step' : σ → Parsing (σ ⊕ α)) (I : σ → Prop)
    (Q : α → Stream → Prop) : Prop :=
  ∀ state s, s.Within c → I state → Parses c (step state) (step' state) s (Round I Q s)

/-- The rounds, which nothing bounds, end with the result, and each but the last takes a token. -/
inductive Ends (step : σ → Parsing (σ ⊕ α)) :
    σ → Stream → EStateM.Result Fault Stream α → Prop
  | done {state : σ} {s t : Stream} {a : α} :
      step state s = .ok (.inr a) t → Ends step state s (.ok a t)
  | fault {state : σ} {s t : Stream} {fault : Fault} :
      step state s = .error fault t → Ends step state s (.error fault t)
  | again {state next : σ} {s t : Stream} {r : EStateM.Result Fault Stream α} :
      step state s = .ok (.inl next) t → t.tokens.length < s.tokens.length → Ends step next t r →
      Ends step state s r

namespace Advances

variable {σ α : Type} {c : Setting} {step step' : σ → Parsing (σ ⊕ α)} {I : σ → Prop}
variable {Q : α → Stream → Prop} {s : Stream} {state seed : σ}

theorem along (h : Advances c step step' I Q) :
    ∀ {bound state s}, s.Within c → I state → s.tokens.length ≤ bound.length →
      Parses c (Parsing.repeatAlong step bound state)
        (Parsing.repeatAlong step' bound state) s Q := by
  intro bound
  induction bound with
  | nil =>
    intro state s hs _ hbound
    obtain ⟨token, rest, hcons⟩ := hs.ended.exists_cons
    rw [hcons] at hbound
    exact absurd hbound (Nat.not_succ_le_zero _)
  | cons _ bound ih =>
    intro state s hs hI hbound
    refine (h state s hs hI).bind fun r t ht hle hround => ?_
    cases r with
    | inl state' =>
      obtain ⟨hlt, hI'⟩ := hround
      rw [List.length_cons] at hbound
      exact ih ht hI' (by omega)
    | inr a => exact .pure ht hround

theorem repeatUntil (h : Advances c step step' I Q) (hs : s.Within c) (hI : I seed) :
    Parses c (Parsing.repeatUntil step seed) (Parsing.repeatUntil step' seed) s Q :=
  h.along hs hI (Nat.le_refl _)

theorem along_ends (h : Advances c step step' I Q) :
    ∀ {bound : List Token} {state s}, s.Within c → I state → s.tokens.length ≤ bound.length →
      Ends step state s (Parsing.repeatAlong step bound state s) := by
  intro bound
  induction bound with
  | nil =>
    intro state s hs _ hbound
    obtain ⟨token, rest, hcons⟩ := hs.ended.exists_cons
    rw [hcons] at hbound
    exact absurd hbound (Nat.not_succ_le_zero _)
  | cons _ bound ih =>
    intro state s hs hI hbound
    have hyields := (h state s hs hI).2
    simp only [Parsing.repeatAlong, Bind.bind, EStateM.bind]
    cases hrun : step state s with
    | error fault t => exact .fault hrun
    | ok r t =>
      rw [hrun] at hyields
      obtain ⟨ht, -, hround⟩ := hyields
      cases r with
      | inr a => exact .done hrun
      | inl state' =>
        obtain ⟨hlt, hI'⟩ := hround
        rw [List.length_cons] at hbound
        exact .again hrun hlt (ih ht hI' (by omega))

/-- The bound on the rounds is never met. -/
theorem ends (h : Advances c step step' I Q) (hs : s.Within c) (hI : I seed) :
    Ends step seed s (Parsing.repeatUntil step seed s) :=
  h.along_ends hs hI (Nat.le_refl _)

end Advances

end ScriptHost.Source

import ScriptHost.Proofs.Coupling.Reading
import ScriptHost.Run.Machine

/-!
Two machines that run the same computation in step with each other. A coupling says what they have
in common at each stage of the run, and how the two runs may be over.
-/

namespace ScriptHost

/-! ## How computations end -/

namespace Run

variable {α β : Type} {x : Run α} {f : α → Run β} {s : Setting} {m m' : Machine}

theorem bind_ok {a : α} (h : x s m = .ok a m') : (x >>= f) s m = f a s m' := by
  change EStateM.bind (x s) (fun a => f a s) m = _
  rw [EStateM.bind, h]

theorem bind_error {e : Abrupt} (h : x s m = .error e m') : (x >>= f) s m = .error e m' := by
  change EStateM.bind (x s) (fun a => f a s) m = _
  rw [EStateM.bind, h]

theorem attempt_ok {a : α} (h : x s m = .ok a m') : attempt x s m = .ok (.ok a) m' := by
  rw [attempt, h]

theorem attempt_error {e : Abrupt} (h : x s m = .error e m') :
    attempt x s m = .ok (.error e) m' := by
  rw [attempt, h]

def mapState (f : Machine → Machine) : EStateM.Result Abrupt Machine α →
    EStateM.Result Abrupt Machine α
  | .ok a m => .ok a (f m)
  | .error e m => .error e (f m)

theorem aside_eq (x : Run α) (s : Setting) (m : Machine) :
    aside x s m = mapState (fun n => { n with completion := m.completion })
      (x s { m with completion := .undefined }) := by
  unfold aside
  cases x s { m with completion := .undefined } <;> rfl

theorem inCall_eq (x : Run α) (s : Setting) (m : Machine) :
    inCall x s m = mapState (fun n => { n with calls := n.calls.leave, line := m.line })
      (aside x s { m with calls := m.calls.enter }) := by
  unfold inCall
  cases aside x s { m with calls := m.calls.enter } <;> rfl

def final? : EStateM.Result Abrupt Machine α → Option (Abrupt × Machine)
  | .ok _ _ => none
  | .error e m => if e.isFinal then some (e, m) else none

theorem final?_eq_some {r : EStateM.Result Abrupt Machine α} {e : Abrupt} {m : Machine}
    (h : final? r = some (e, m)) : r = .error e m := by
  cases r with
  | ok => exact nomatch h
  | error e' m' =>
    simp only [final?, Option.ite_none_right_eq_some, Option.some.injEq, Prod.mk.injEq] at h
    rw [h.2.1, h.2.2]

theorem isFinal_of_final? {r : EStateM.Result Abrupt Machine α} {e : Abrupt} {m : Machine}
    (h : final? r = some (e, m)) : e.isFinal = true := by
  obtain rfl := final?_eq_some h
  cases he : e.isFinal with
  | true => rfl
  | false => simp [final?, he] at h

theorem final?_mapState (f : Machine → Machine) (r : EStateM.Result Abrupt Machine α) :
    final? (mapState f r) = (final? r).map (Prod.map id f) := by
  cases r with
  | ok => rfl
  | error e m => cases h : e.isFinal <;> simp [final?, mapState, h]

theorem final?_bind (x : Run α) (f : α → Run β) (s : Setting) (m : Machine) :
    final? (x s m) = none ∨ final? ((x >>= f) s m) = final? (x s m) := by
  cases h : x s m with
  | ok => exact .inl rfl
  | error e m' => rw [bind_error h]; exact .inr rfl

end Run

namespace Machine

/-- What a machine keeps for the computation under way, apart from its nesting. -/
structure Books where
  completion : Value
  line : Nat
  throwLine : Nat
  calls : Gauge
  unchecked : List Json

def books (m : Machine) : Books :=
  ⟨m.completion, m.line, m.throwLine, m.calls, m.unchecked⟩

def withBooks (m : Machine) (b : Books) : Machine :=
  { m with
    completion := b.completion
    line := b.line
    throwLine := b.throwLine
    calls := b.calls
    unchecked := b.unchecked }

structure Books.Matches (R : ObjectId → ObjectId → Prop) (b b' : Books) : Prop where
  completion : b.completion.Matches R b'.completion
  line : b.line = b'.line
  throwLine : b.throwLine = b'.throwLine
  calls : b.calls = b'.calls
  unchecked : b.unchecked = b'.unchecked

theorem Books.matches_refl (b : Books) : b.Matches Eq b :=
  ⟨.refl_eq _, rfl, rfl, rfl, rfl⟩

end Machine

inductive Abrupt.Matches (R : ObjectId → ObjectId → Prop) : Abrupt → Abrupt → Prop
  | thrown {v v' : Value} : v.Matches R v' → Matches R (.thrown v) (.thrown v')
  | returned {v v' : Value} : v.Matches R v' → Matches R (.returned v) (.returned v')
  | broke : Matches R .broke .broke
  | continued : Matches R .continued .continued

theorem Abrupt.Matches.mono {R S : ObjectId → ObjectId → Prop} (hRS : ∀ a b, R a b → S a b)
    {e e' : Abrupt} (h : e.Matches R e') : e.Matches S e' := by
  cases h with
  | thrown hv => exact .thrown (hv.mono hRS)
  | returned hv => exact .returned (hv.mono hRS)
  | broke => exact .broke
  | continued => exact .continued

/-! ## Couplings -/

/--
A later stage of two coupled runs knows of more objects and scopes. Once one run is over, it stays
so, whatever the other does.
-/
structure Coupling where
  Stage : Type
  Later : Stage → Stage → Prop
  Named : Stage → ObjectId → ObjectId → Prop
  Opened : Stage → ScopeId → Prop
  State : Stage → Machine → Machine → Prop
  Over : Stage → Option (Abrupt × Machine) → Option (Abrupt × Machine) → Prop
  refl : ∀ w, Later w w
  trans : ∀ {u v w}, Later u v → Later v w → Later u w
  named : ∀ {v w}, Later v w → ∀ a b, Named v a b → Named w a b
  opened : ∀ {v w}, Later v w → ∀ i, Opened v i → Opened w i
  unique : ∀ w, Relator.BiUnique (Named w)
  heap : ∀ {w m m'}, State w m m' → m.heap.Matches (Named w) (Opened w) m'.heap
  scopes : ∀ {w m m'}, State w m m' → m.scopes.Matches (Named w) (Opened w) m'.scopes
  books : ∀ {w m m'}, State w m m' → m.books.Matches (Named w) m'.books
  still : ∀ {w m m' b c}, State w m m' → Machine.Books.Matches (Named w) b c →
    State w (m.withBooks b) (m'.withBooks c)
  over_grow : ∀ {w p q p' q'}, Over w p q → p = none ∨ p' = p → q = none ∨ q' = q → Over w p' q'
  over_still : ∀ {w p q} (b b' : Machine.Books), Over w p q →
    Over w (p.map (Prod.map id fun m => m.withBooks b))
      (q.map (Prod.map id fun m => m.withBooks b'))

namespace Coupling

variable {α β γ δ : Type}

def Value (K : Coupling) (w : K.Stage) : Value → Value → Prop :=
  Value.Matches (K.Named w)

def Same (K : Coupling) (_ : K.Stage) (a b : α) : Prop :=
  a = b

inductive Ends (K : Coupling) (w : K.Stage) (T : K.Stage → α → β → Prop) :
    EStateM.Result Abrupt Machine α → EStateM.Result Abrupt Machine β → Prop
  | ok {v : K.Stage} {a : α} {b : β} {m m' : Machine} :
      K.Later w v → K.State v m m' → T v a b → Ends K w T (.ok a m) (.ok b m')
  | abrupt {v : K.Stage} {e e' : Abrupt} {m m' : Machine} :
      K.Later w v → K.State v m m' → e.Matches (K.Named v) e' →
      Ends K w T (.error e m) (.error e' m')
  | final {v : K.Stage} {x : EStateM.Result Abrupt Machine α}
      {y : EStateM.Result Abrupt Machine β} :
      K.Later w v → K.Over v (Run.final? x) (Run.final? y) → Ends K w T x y

/-- From coupled machines, the computations end in coupled machines. -/
def Follows (K : Coupling) (s s' : Setting) (w : K.Stage) (T : K.Stage → α → β → Prop)
    (x : Run α) (y : Run β) : Prop :=
  ∀ v, K.Later w v → ∀ m m', K.State v m m' → K.Ends v T (x s m) (y s' m')

variable {K : Coupling} {s s' : Setting} {w : K.Stage}

namespace Ends

variable {T U : K.Stage → α → β → Prop} {x : EStateM.Result Abrupt Machine α}
  {y : EStateM.Result Abrupt Machine β}

theorem earlier {v : K.Stage} (hl : K.Later w v) (h : K.Ends v T x y) : K.Ends w T x y := by
  cases h with
  | ok hv hst ht => exact .ok (K.trans hl hv) hst ht
  | abrupt hv hst he => exact .abrupt (K.trans hl hv) hst he
  | final hv hover => exact .final (K.trans hl hv) hover

theorem mapState {f g : Machine → Machine}
    (hstate : ∀ v, K.Later w v → ∀ m m', K.State v m m' → K.State v (f m) (g m'))
    (hover : ∀ v, K.Later w v → ∀ p q, K.Over v p q →
      K.Over v (p.map (Prod.map id f)) (q.map (Prod.map id g)))
    (h : K.Ends w T x y) : K.Ends w T (Run.mapState f x) (Run.mapState g y) := by
  cases h with
  | ok hv hst ht => exact .ok hv (hstate _ hv _ _ hst) ht
  | abrupt hv hst he => exact .abrupt hv (hstate _ hv _ _ hst) he
  | final hv hend =>
    refine .final hv ?_
    rw [Run.final?_mapState, Run.final?_mapState]
    exact hover _ hv _ _ hend

end Ends

theorem Ends.bindAt {T : K.Stage → α → β → Prop} {V : K.Stage → γ → δ → Prop} {x : Run α}
    {y : Run β} {f : α → Run γ} {g : β → Run δ} {m m' : Machine}
    (hx : K.Ends w T (x s m) (y s' m'))
    (hf : ∀ v, K.Later w v → ∀ a b, T v a b → ∀ n n', K.State v n n' → x s m = .ok a n →
      y s' m' = .ok b n' → K.Ends v V (f a s n) (g b s' n')) :
    K.Ends w V ((x >>= f) s m) ((y >>= g) s' m') := by
  have hleft := Run.final?_bind x f s m
  have hright := Run.final?_bind y g s' m'
  generalize hrx : x s m = rx, hry : y s' m' = ry at hx hleft hright
  cases hx with
  | @ok u a b n n' hl hst ht =>
    rw [Run.bind_ok hrx, Run.bind_ok hry]
    exact (hf u hl a b ht n n' hst hrx hry).earlier hl
  | abrupt hl hst he =>
    rw [Run.bind_error hrx, Run.bind_error hry]
    exact .abrupt hl hst he
  | final hl hover => exact .final hl (K.over_grow hover hleft hright)

theorem Ends.bind {T : K.Stage → α → β → Prop} {V : K.Stage → γ → δ → Prop} {x : Run α}
    {y : Run β} {f : α → Run γ} {g : β → Run δ} {m m' : Machine}
    (hx : K.Ends w T (x s m) (y s' m'))
    (hf : ∀ v, K.Later w v → ∀ a b, T v a b → K.Follows s s' v V (f a) (g b)) :
    K.Ends w V ((x >>= f) s m) ((y >>= g) s' m') :=
  hx.bindAt fun v hv a b hab n n' hst _ _ => hf v hv a b hab v (K.refl v) n n' hst

namespace Follows

variable {T U : K.Stage → α → β → Prop} {V : K.Stage → γ → δ → Prop} {x : Run α} {y : Run β}

theorem later {v : K.Stage} (h : K.Follows s s' w T x y) (hl : K.Later w v) :
    K.Follows s s' v T x y :=
  fun _ hv => h _ (K.trans hl hv)

theorem pure {a : α} {b : β} (h : ∀ v, K.Later w v → T v a b) :
    K.Follows s s' w T (pure a) (pure b) :=
  fun v hv _ _ hst => .ok (K.refl v) hst (h v hv)

theorem error {e e' : Abrupt} (h : e.Matches (K.Named w) e') :
    K.Follows s s' w T (throw e) (throw e') :=
  fun v hv _ _ hst => .abrupt (K.refl v) hst (h.mono (K.named hv))

theorem bind {f : α → Run γ} {g : β → Run δ} (hx : K.Follows s s' w T x y)
    (hf : ∀ v, K.Later w v → ∀ a b, T v a b → K.Follows s s' v V (f a) (g b)) :
    K.Follows s s' w V (x >>= f) (y >>= g) :=
  fun v hv m m' hst => (hx v hv m m' hst).bind fun u hu => hf u (K.trans hv hu)

theorem map {f : α → γ} {g : β → δ} (hx : K.Follows s s' w T x y)
    (hf : ∀ v, K.Later w v → ∀ a b, T v a b → ∀ u, K.Later v u → V u (f a) (g b)) :
    K.Follows s s' w V (f <$> x) (g <$> y) := by
  rw [map_eq_pure_bind, map_eq_pure_bind]
  exact hx.bind fun v hv a b ht => pure (hf v hv a b ht)

/-- What follows an attempt passes on every end that nothing may stop. -/
theorem attempt {f : Except Abrupt α → Run γ} {g : Except Abrupt β → Run δ}
    (hx : K.Follows s s' w T x y)
    (hok : ∀ v, K.Later w v → ∀ a b, T v a b → K.Follows s s' v V (f (.ok a)) (g (.ok b)))
    (herror : ∀ v, K.Later w v → ∀ e e', e.Matches (K.Named v) e' →
      K.Follows s s' v V (f (.error e)) (g (.error e')))
    (hf : ∀ e, e.isFinal = true → f (.error e) = throw e)
    (hg : ∀ e, e.isFinal = true → g (.error e) = throw e) :
    K.Follows s s' w V (Run.attempt x >>= f) (Run.attempt y >>= g) := by
  intro v hv m m' hst
  have hends := hx v hv m m' hst
  have hpass {ε ζ : Type} {z : Run ε} {k : Except Abrupt ε → Run ζ}
      (hk : ∀ e, e.isFinal = true → k (.error e) = throw e) (t : Setting) (n : Machine) :
      Run.final? (z t n) = none ∨ Run.final? ((Run.attempt z >>= k) t n) = Run.final? (z t n) := by
    cases h : z t n with
    | ok => exact .inl rfl
    | error e n' =>
      cases he : e.isFinal with
      | false => exact .inl (by simp [Run.final?, he])
      | true => rw [Run.bind_ok (Run.attempt_error h), hk e he]; exact .inr rfl
  have hleft := hpass hf (z := x) s m
  have hright := hpass hg (z := y) s' m'
  generalize hrx : x s m = rx, hry : y s' m' = ry at hends hleft hright
  cases hends with
  | @ok u a b n n' hl hst' ht =>
    rw [Run.bind_ok (Run.attempt_ok hrx), Run.bind_ok (Run.attempt_ok hry)]
    exact ((hok u (K.trans hv hl) a b ht) u (K.refl u) n n' hst').earlier hl
  | @abrupt u e e' n n' hl hst' he =>
    rw [Run.bind_ok (Run.attempt_error hrx), Run.bind_ok (Run.attempt_error hry)]
    exact ((herror u (K.trans hv hl) e e' he) u (K.refl u) n n' hst').earlier hl
  | final hl hover => exact .final hl (K.over_grow hover hleft hright)

end Follows

end Coupling

end ScriptHost

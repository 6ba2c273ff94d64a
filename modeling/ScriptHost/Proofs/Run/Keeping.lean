import ScriptHost.Proofs.Coupling.Law
import ScriptHost.Proofs.Run.Rules

/-!
What holds of the scopes and the line. Only few steps change one or the other, and all others keep
whatever is known of them.
-/

namespace ScriptHost.Run

variable {α β : Type} {P : Scopes → Nat → Prop}

theorem left_mapState (f : Machine → Machine) (r : EStateM.Result Abrupt Machine α) :
    left (mapState f r) = f (left r) := by
  cases r <;> rfl

/-- Whatever holds before the computation holds after it, however it ends. -/
def Keeps (P : Scopes → Nat → Prop) (x : Run α) : Prop :=
  ∀ s m, P m.scopes m.line → P (left (x s m)).scopes (left (x s m)).line

namespace Keeps

theorem pure (a : α) : Keeps P (pure a) :=
  fun _ _ hm => hm

theorem error (e : Abrupt) : Keeps P (throw e : Run α) :=
  fun _ _ hm => hm

theorem ended (P : Scopes → Nat → Prop) (ending : Except Abrupt Unit) :
    Keeps P (match ending with
      | .ok () => Pure.pure ()
      | .error abrupt => throw abrupt) := by
  split
  · exact pure _
  · exact error _

theorem functionResult (ending : Except Abrupt Unit) :
    Keeps P (Evaluator.functionResult ending) := by
  unfold Evaluator.functionResult
  split
  · exact pure _
  · exact pure _
  · exact error _

theorem bind {x : Run α} {f : α → Run β} (hx : Keeps P x) (hf : ∀ a, Keeps P (f a)) :
    Keeps P (x >>= f) := by
  intro s m hm
  have hleft := hx s m hm
  cases h : x s m with
  | ok a k =>
    rw [h] at hleft
    rw [bind_ok h]
    exact hf a s k hleft
  | error e k =>
    rw [h] at hleft
    rw [bind_error h]
    exact hleft

theorem map {x : Run α} (hx : Keeps P x) (f : α → β) : Keeps P (f <$> x) := by
  rw [map_eq_pure_bind]
  exact hx.bind fun a => pure (f a)

theorem attempt {x : Run α} (hx : Keeps P x) : Keeps P (attempt x) := by
  intro s m hm
  have hleft := hx s m hm
  cases h : x s m with
  | ok a k =>
    rw [h] at hleft
    rw [attempt_ok h]
    exact hleft
  | error e k =>
    rw [h] at hleft
    rw [attempt_error h]
    exact hleft

theorem aside {x : Run α} (hx : Keeps P x) : Keeps P (aside x) := by
  intro s m hm
  rw [aside_eq, left_mapState]
  exact hx s { m with completion := .undefined } hm

/-- The line of the call is there again after the body, whatever it is within. -/
theorem inCall {x : Run α} (hx : ∀ line, Keeps (fun scopes _ => P scopes line) x) :
    Keeps P (inCall x) := by
  intro s m hm
  rw [inCall_eq, left_mapState]
  exact (hx m.line).aside s { m with calls := m.calls.enter } hm

theorem onHeap (step : Heap.Step α) : Keeps P (onHeap step) := by
  intro s m hm
  rcases left_onHeap step s m with hleft | ⟨reason, hleft⟩
  · rw [hleft]
    exact hm
  · rw [hleft]
    exact hm

theorem complain (complaint : Complaint) : Keeps P (complain complaint : Run α) :=
  bind (fun _ _ hm => hm) fun _ => (onHeap _).bind fun _ _ _ hm => hm

theorem safePoint : Keeps P safePoint := by
  intro s m hm
  unfold Run.safePoint
  split
  · exact hm
  · dsimp only
    split
    · exact hm
    · split
      · exact hm
      · exact hm

theorem checkCallDepth : Keeps P checkCallDepth := by
  intro s m hm
  unfold Run.checkCallDepth
  split
  · exact complain _ s m hm
  · exact hm

theorem nested {x : Run α} (hx : Keeps P x) : Keeps P (nested x) := by
  intro s m hm
  by_cases hlimit : nestingLimit ≤ m.nesting.level
  · rw [Run.nested, if_pos hlimit]
    exact complain _ s m hm
  · rw [nested_below x s hlimit, left_mapState]
    exact hx s { m with nesting := m.nesting.enter } hm

theorem repeatFor {round : Run Bool} (hround : Keeps P round) (rounds : Nat) :
    Keeps P (repeatFor round rounds) := by
  induction rounds with
  | zero => exact error _
  | succ rounds ih =>
    refine hround.bind fun goesOn => ?_
    split
    · exact ih
    · exact pure _

theorem repeatWhile {round : Run Bool} (hround : Keeps P round) : Keeps P (repeatWhile round) :=
  fun s m => (safePoint.bind fun _ => hround).repeatFor (s.horizon - m.polls + 1) s m

theorem alike (hassign : ∀ name value frame, Keeps P (assignName name value frame)) :
    Alike fun α x _ => @Keeps α P x where
  pure := pure
  bind := bind
  heap _ _ hm := hm
  scopes _ _ hm := hm
  setting _ _ hm := hm
  onHeap step _ := onHeap step
  onHost _ _ _ hm := hm
  unchecked _ _ _ hm := hm
  raise _ _ _ hm := hm
  record function native args := by
    cases native <;> exact fun _ _ hm => hm
  assignName := hassign

end Keeps

end ScriptHost.Run

import ScriptHost.Proofs.Run.Keeping

/-!
What holds of a heap, and still holds after each step that scripts take on it, holds all through a
run.
-/

namespace ScriptHost

variable {α β : Type} {P : Heap → Prop}

/-- No step that scripts take ends what holds. -/
def Heap.Lasting (P : Heap → Prop) : Prop :=
  ∀ {α : Type} (step : Heap.Step α), Heap.Scripted step → ∀ h, P h → P (Heap.left step h)

namespace Run

def Upholds (P : Heap → Prop) (x : Run α) : Prop :=
  ∀ s m, P m.heap → P (left (x s m)).heap

namespace Upholds

variable {x : Run α} {f : α → Run β}

theorem of_same (hsame : ∀ s m, (left (x s m)).heap = m.heap) : Upholds P x :=
  fun s m hm => (hsame s m).symm ▸ hm

theorem pure (a : α) : Upholds P (pure a) :=
  of_same fun _ _ => rfl

theorem error (e : Abrupt) : Upholds P (throw e : Run α) :=
  of_same fun _ _ => rfl

theorem bind (hx : Upholds P x) (hf : ∀ a, Upholds P (f a)) : Upholds P (x >>= f) := by
  intro s m hm
  have hleft := hx s m hm
  cases h : x s m with
  | ok a n =>
    rw [h] at hleft
    rw [bind_ok h]
    exact hf a s n hleft
  | error e n =>
    rw [h] at hleft
    rw [bind_error h]
    exact hleft

theorem attempt (hx : Upholds P x) : Upholds P (attempt x) := by
  intro s m hm
  have hleft := hx s m hm
  cases h : x s m with
  | ok a n =>
    rw [h] at hleft
    rw [attempt_ok h]
    exact hleft
  | error e n =>
    rw [h] at hleft
    rw [attempt_error h]
    exact hleft

theorem aside (hx : Upholds P x) : Upholds P (aside x) := by
  intro s m hm
  rw [aside_eq, left_mapState]
  exact hx s { m with completion := .undefined } hm

theorem inCall (hx : Upholds P x) : Upholds P (inCall x) := by
  intro s m hm
  rw [inCall_eq, left_mapState]
  exact hx.aside s { m with calls := m.calls.enter } hm

theorem onHeap {step : Heap.Step α} (hstep : ∀ h, P h → P (Heap.left step h)) :
    Upholds P (onHeap step) := by
  intro s m hm
  rcases left_onHeap step s m with hleft | ⟨reason, hleft⟩
  · rw [hleft]
    exact hstep m.heap hm
  · rw [hleft]
    exact hstep m.heap hm

theorem safePoint : Upholds P safePoint := by
  intro s m hm
  unfold Run.safePoint
  split
  · exact hm
  · dsimp only
    split
    · exact hm
    · split
      · exact hm
      · exact hm

theorem repeatFor {round : Run Bool} (hround : Upholds P round) (rounds : Nat) :
    Upholds P (repeatFor round rounds) := by
  induction rounds with
  | zero => exact error _
  | succ rounds ih =>
    refine hround.bind fun goesOn => ?_
    split
    · exact ih
    · exact pure _

theorem repeatWhile {round : Run Bool} (hround : Upholds P round) :
    Upholds P (repeatWhile round) :=
  fun s m => (safePoint.bind fun _ => hround).repeatFor (s.horizon - m.polls + 1) s m

section Lasting

variable (hP : Heap.Lasting P)

include hP

theorem complain (complaint : Complaint) : Upholds P (complain complaint : Run α) := by
  refine bind (of_same fun _ _ => rfl) fun _ => ?_
  exact (onHeap (hP _ (.allocateError _ _))).bind fun _ => of_same fun _ _ => rfl

theorem assignName (name : String) (value : Value) (frame : Frame) :
    Upholds P (assignName name value frame) := by
  refine bind (of_same fun _ _ => rfl) fun scopes => ?_
  split
  · split
    · exact of_same fun _ _ => rfl
    · exact complain hP _
  · exact bind (of_same fun _ _ => rfl) fun s => onHeap (hP _ (.setProperty _ name value))

theorem checkCallDepth : Upholds P checkCallDepth := by
  intro s m hm
  unfold Run.checkCallDepth
  split
  · exact complain hP _ s m hm
  · exact hm

theorem alikeThroughout : AlikeThroughout fun α x _ => @Upholds α P x where
  pure := pure
  bind := bind
  heap := of_same fun _ _ => rfl
  scopes := of_same fun _ _ => rfl
  setting := of_same fun _ _ => rfl
  onHeap step hstep := onHeap (hP step hstep)
  onHost _ := of_same fun _ _ => rfl
  unchecked _ := of_same fun _ _ => rfl
  raise _ := of_same fun _ _ => rfl
  record function native args := by
    cases native <;> exact of_same fun _ _ => rfl
  assignName := assignName hP
  error := error
  attempt := attempt
  aside := aside
  repeatWhile := repeatWhile
  safePoint := safePoint
  globalThis := of_same fun _ _ => rfl
  setLine _ := of_same fun _ _ => rfl
  setCompletion _ := of_same fun _ _ => rfl
  openChild _ _ := of_same fun _ _ => rfl
  bindName _ _ _ := of_same fun _ _ => rfl

theorem nested (hx : Upholds P x) : Upholds P (nested x) := by
  intro s m hm
  by_cases hlimit : nestingLimit ≤ m.nesting.level
  · rw [Run.nested, if_pos hlimit]
    exact complain hP _ s m hm
  · rw [nested_below x s hlimit, left_mapState]
    exact hx s { m with nesting := m.nesting.enter } hm

end Lasting

end Upholds

end Run

/-! ## Whole runs -/

namespace Evaluator

variable {self : Evaluator} (hP : Heap.Lasting P)

abbrev Upholds (P : Heap → Prop) (self : Evaluator) : Prop :=
  self.AlikeThroughout (fun α x _ => @Run.Upholds α P x) self

include hP

theorem Upholds.callScript (h : self.Upholds P) (code : Source.Function) (closure : ScopeId)
    (this : Value) (args : List Value) :
    Run.Upholds P (self.callScript code closure this args) :=
  AlikeThroughout.callScript h (.checkCallDepth hP) code
    (fun frame => (h.execStatements frame code.body).inCall) closure this args

theorem Upholds.alike (h : self.Upholds P) :
    self.Alike (fun α x _ => @Run.Upholds α P x) self :=
  AlikeThroughout.alike h (h.callScript hP)

theorem upholds_ofDepth (depth : Nat) : (ofDepth depth).Upholds P := by
  have hsteps := Run.Upholds.alikeThroughout hP
  induction depth with
  | zero => exact ⟨hsteps, fun _ _ => .complain hP _, fun _ _ => .complain hP _⟩
  | succ depth ih =>
    refine ⟨hsteps, fun e frame => .nested hP ((ih.alike hP).evalExpr frame e),
      fun stmt frame => .nested hP ?_⟩
    refine .bind (hsteps.setLine _) fun _ => .bind .safePoint fun _ => ?_
    exact ih.execKind frame stmt.kind

end Evaluator

namespace Run.Upholds

variable (hP : Heap.Lasting P)

include hP

theorem program (body : Source.Program) : Upholds P (program body) := by
  refine bind (of_same fun _ _ => rfl) fun frame => ?_
  refine ((Evaluator.upholds_ofDepth hP nestingLimit).execStatements frame body).bind fun _ => ?_
  exact of_same fun _ _ => rfl

theorem dispatch (handler : String) {event : Heap.Step Value}
    (hevent : ∀ h, P h → P (Heap.left event h)) : Upholds P (dispatch handler event) := by
  refine safePoint.bind fun _ => bind (of_same fun _ _ => rfl) fun s => ?_
  refine bind (of_same fun _ _ => rfl) fun h => ?_
  dsimp only
  split
  · refine (onHeap hevent).bind fun event => ?_
    exact ((Evaluator.upholds_ofDepth hP nestingLimit).alike hP).call _ _ _ handler
  · exact pure _

end Run.Upholds

end ScriptHost

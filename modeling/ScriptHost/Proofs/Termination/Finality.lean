import ScriptHost.Proofs.Coupling.Lockstep

/-!
A termination is final: whatever statements, loops, handlers, finalizers and calls are under way
when it comes, the run ends with it and nothing in the world of the scripts changes any more.
-/

namespace ScriptHost

/-- The first polls were answered with nothing. -/
def Setting.Silent (s : Setting) (polls : Nat) : Prop :=
  ∀ n < polls, ∃ logged, s.answer n logged = none

/-- Either the last poll was answered with the reason, or a charge to the budget failed. -/
inductive Halt.Caused (s : Setting) (h : Halt) : Prop
  | poll (n : Nat) : h.world.polls = n + 1 → s.Silent n →
      s.answer n h.world.host.logged = some h.reason → Caused s h
  | charge : h.reason = .memoryLimit → s.Silent h.world.polls → Caused s h

namespace Machine

structure Unhalted (s : Setting) (m : Machine) : Prop where
  record : m.halts = []
  silent : s.Silent m.polls

structure HaltedAt (s : Setting) (h : Halt) (m : Machine) : Prop where
  record : m.halts = [h]
  world : m.world = h.world
  caused : h.Caused s

theorem Unhalted.haltedAt {s : Setting} {m : Machine} {reason : TerminationReason}
    (hm : m.Unhalted s) (hcaused : Halt.Caused s ⟨reason, m.world⟩) :
    (m.halt reason).HaltedAt s ⟨reason, m.world⟩ :=
  ⟨congrArg (List.cons _) hm.record, rfl, hcaused⟩

end Machine

/-- How a run ends that nothing in a script may stop from ending. -/
inductive Stopped (s : Setting) : Abrupt → Machine → Prop
  | terminated {h : Halt} {m : Machine} : m.HaltedAt s h → Stopped s (.terminated h.reason) m
  | starved {m : Machine} : m.Unhalted s → Stopped s .starved m

theorem Stopped.change {s : Setting} {e : Abrupt} {m : Machine} (f : Machine → Machine)
    (hworld : (f m).world = m.world) (hhalts : (f m).halts = m.halts) (h : Stopped s e m) :
    Stopped s e (f m) := by
  cases h with
  | terminated hm => exact .terminated ⟨hhalts.trans hm.record, hworld.trans hm.world, hm.caused⟩
  | starved hm =>
    refine .starved ⟨hhalts.trans hm.record, ?_⟩
    rw [show (f m).polls = m.polls from congrArg World.polls hworld]
    exact hm.silent

/-- A run in lockstep with itself. -/
def finality (s : Setting) : Lockstep where
  Stage := Unit
  Later _ _ := True
  Good _ m := m.Unhalted s
  Over _ p _ := ∃ e m, p = some (e, m) ∧ Stopped s e m
  refl _ := trivial
  trans _ _ := trivial
  good hpolls hhalts _ hm := ⟨hhalts.trans hm.record, hpolls ▸ hm.silent⟩
  over_grow := by
    rintro _ _ q p' q' ⟨e, m, rfl, hstop⟩ hp -
    rcases hp with hp | rfl
    · exact nomatch hp
    · exact ⟨e, m, rfl, hstop⟩
  over_still := by
    rintro _ _ q b b' ⟨e, m, rfl, hstop⟩
    exact ⟨e, m.withBooks b, rfl, hstop.change (fun m => m.withBooks b) rfl rfl⟩

namespace finality

variable {s : Setting} {w : Unit}

theorem safePoint : (finality s).coupling.Follows s s w (finality s).coupling.Same
    Run.safePoint Run.safePoint := by
  rintro v - m _ ⟨rfl, hm⟩
  unfold Run.safePoint
  by_cases hhorizon : s.horizon ≤ m.polls
  · rw [if_pos hhorizon]
    exact .final (v := v) trivial ⟨.starved, m, rfl, .starved hm⟩
  · rw [if_neg hhorizon]
    dsimp only
    cases hanswer : s.answer m.polls m.host.logged with
    | some reason =>
      refine .final (v := v) trivial ⟨_, _, rfl, .terminated (h := ⟨reason, _⟩) ⟨?_, rfl, ?_⟩⟩
      · exact congrArg (List.cons _) hm.record
      · exact .poll m.polls rfl hm.silent hanswer
    | none =>
      have hsilent : s.Silent (m.polls + 1) := by
        intro n hn
        rcases Nat.lt_succ_iff_lt_or_eq.1 hn with hlt | rfl
        · exact hm.silent n hlt
        · exact ⟨_, hanswer⟩
      cases m.pending with
      | none => exact .ok (v := v) trivial ⟨rfl, hm.record, hsilent⟩ rfl
      | some value =>
        exact .abrupt (v := v) trivial ⟨rfl, hm.record, hsilent⟩ (.thrown (.refl_eq value))

theorem elementary : (finality s).coupling.Elementary s s := by
  refine Lockstep.elementary rfl (fun _ m hm => ?_) (fun _ => safePoint) fun _ x y h => ?_
  · exact ⟨_, _, rfl, .terminated (hm.haltedAt (.charge rfl hm.silent))⟩
  · exact h.repeatWhile rfl (fun _ _ _ hst => congrArg Machine.polls hst.1)
      (fun _ m _ hst => ⟨_, m, rfl, .starved hst.2⟩) fun _ => safePoint

theorem nests : (finality s).coupling.Nests s s := by
  refine Coupling.nests elementary.keeps (fun _ _ _ hst => congrArg (fun m => m.nesting.level) hst.1) ?_ ?_ ?_
  · rintro _ m _ ⟨rfl, hm⟩
    exact ⟨rfl, hm.record, hm.silent⟩
  · rintro _ m _ ⟨rfl, hm⟩
    exact ⟨rfl, hm.record, hm.silent⟩
  · rintro _ _ q ⟨e, m, rfl, hstop⟩
    exact ⟨e, _, rfl, hstop.change (fun m => { m with nesting := m.nesting.leave }) rfl rfl⟩

theorem task (task : Task) : (finality s).coupling.Follows s s () (finality s).coupling.Value
    task.run task.run :=
  Coupling.Common.task ⟨elementary.keeps, rfl, rfl, trivial⟩ nests elementary.connectEvent task

end finality

theorem Task.perform_halts (s : Setting) (heap : Heap) (scopes : Scopes) (pending : Option Value)
    (host : Host) (task : Task) (completion : Completion) (m : Machine)
    (h : task.perform (.start heap scopes pending host) s = (completion, m)) :
    (m.Unhalted s ∧ ∀ reason, completion ≠ .terminated reason) ∨
      ∃ halt, completion = .terminated halt.reason ∧ m.HaltedAt s halt := by
  have hstart : (Machine.start heap scopes pending host).Unhalted s :=
    ⟨rfl, fun n hn => absurd hn (Nat.not_lt_zero n)⟩
  have hends := finality.task (s := s) task () trivial _ _ ⟨rfl, hstart⟩
  rw [perform_eq] at h
  generalize task.run s (Machine.start heap scopes pending host) = r at h hends
  cases hends with
  | ok _ hst _ =>
    obtain ⟨rfl, rfl⟩ := Prod.mk.inj h
    exact .inl ⟨hst.2, fun _ => nofun⟩
  | abrupt _ hst he =>
    cases he with
    | _ =>
      obtain ⟨rfl, rfl⟩ := Prod.mk.inj h
      exact .inl ⟨hst.2, fun _ => nofun⟩
  | final _ hover =>
    obtain ⟨e, n, hfinal, hstop⟩ := hover
    rw [Run.final?_eq_some hfinal] at h
    cases hstop with
    | terminated hm =>
      obtain ⟨rfl, rfl⟩ := Prod.mk.inj h
      exact .inr ⟨_, rfl, hm⟩
    | starved hm =>
      obtain ⟨rfl, rfl⟩ := Prod.mk.inj h
      exact .inl ⟨hm, fun _ => nofun⟩

theorem Setting.Silent.not_answered {s : Setting} {polls n : Nat} {reason : TerminationReason}
    (h : s.Silent polls) (hn : n < polls) : ¬ ∀ logged, s.answer n logged = some reason := by
  intro hanswer
  obtain ⟨logged, hnone⟩ := h n hn
  rw [hanswer logged] at hnone
  exact nomatch hnone

/--
Once a poll is answered with a reason or a charge fails, the run ends with that very reason and
leaves the world as it was then; and a run ends so for no other cause.
-/
theorem Task.termination_final (s : Setting) (heap : Heap) (scopes : Scopes)
    (pending : Option Value) (host : Host) (task : Task) :
    let ending := task.perform (.start heap scopes pending host) s
    (∀ halt ∈ ending.2.halts, ending.1 = .terminated halt.reason ∧ ending.2.halts = [halt] ∧
        ending.2.world = halt.world ∧ halt.Caused s) ∧
      (∀ reason, ending.1 = .terminated reason →
        ∃ halt ∈ ending.2.halts, halt.reason = reason) ∧
      ∀ n reason, n < ending.2.polls → (∀ logged, s.answer n logged = some reason) →
        ending.1 = .terminated reason ∧ ending.2.polls = n + 1 := by
  intro ending
  obtain ⟨hm, hcompletion⟩ | ⟨halt, hcompletion, hm⟩ :=
    task.perform_halts s heap scopes pending host ending.1 ending.2 rfl
  · refine ⟨fun halt hhalt => ?_, fun reason h => absurd h (hcompletion reason), ?_⟩
    · rw [hm.record] at hhalt
      exact absurd hhalt List.not_mem_nil
    · intro n reason hn hanswer
      exact absurd hanswer (hm.silent.not_answered hn)
  · have hpolls : ending.2.polls = halt.world.polls := congrArg World.polls hm.world
    refine ⟨fun other hother => ?_, fun reason h => ?_, fun n reason hn hanswer => ?_⟩
    · rw [hm.record, List.mem_singleton] at hother
      obtain rfl := hother
      exact ⟨hcompletion, hm.record, hm.world, hm.caused⟩
    · refine ⟨halt, hm.record ▸ List.mem_singleton_self halt, ?_⟩
      exact Completion.terminated.inj (hcompletion.symm.trans h)
    · rw [hpolls] at hn ⊢
      cases hm.caused with
      | charge _ hsilent => exact absurd hanswer (hsilent.not_answered hn)
      | poll k hk hsilent hreason =>
        rcases Nat.lt_succ_iff_lt_or_eq.1 (hk ▸ hn) with hlt | rfl
        · exact absurd hanswer (hsilent.not_answered hlt)
        · rw [hanswer] at hreason
          exact ⟨hcompletion.trans (congrArg _ (Option.some.inj hreason).symm), hk⟩

end ScriptHost

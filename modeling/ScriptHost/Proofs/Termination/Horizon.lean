import ScriptHost.Proofs.Coupling.Lockstep

/-!
The polls bound every run. If one of them is sure to be answered with a reason, the run has ended by
then, and no horizon beyond it makes any difference.
-/

namespace ScriptHost

def Setting.upTo (s : Setting) (horizon : Nat) : Setting :=
  { s with horizon := horizon }

/-- Two runs whose horizons lie beyond the last poll. A stage is a number of polls made. -/
def patience (last : Nat) : Lockstep where
  Stage := Nat
  Later v w := v ≤ w
  Good w m := w ≤ m.polls ∧ m.polls < last
  Over _ p q := ∃ reason m m', p = some (.terminated reason, m) ∧
    q = some (.terminated reason, m') ∧ m.world = m'.world ∧ m.polls ≤ last
  refl := Nat.le_refl
  trans := Nat.le_trans
  good hpolls _ _ hm := hpolls ▸ hm
  over_grow := by
    rintro _ _ _ p' q' ⟨reason, m, m', rfl, rfl, hsame⟩ hp hq
    rcases hp with hp | rfl
    · exact nomatch hp
    · rcases hq with hq | rfl
      · exact nomatch hq
      · exact ⟨reason, m, m', rfl, rfl, hsame⟩
  over_still := by
    rintro _ _ _ b b' ⟨reason, m, m', rfl, rfl, hsame⟩
    exact ⟨reason, m.withBooks b, m'.withBooks b', rfl, rfl, hsame⟩

namespace patience

variable {last : Nat} {s : Setting} {horizon horizon' : Nat} {w : Nat}

theorem safePoint_ends (hlast : ∀ logged, (s.answer (last - 1) logged).isSome)
    (hle : last ≤ horizon) (hle' : last ≤ horizon') {m : Machine} (hm : m.polls < last) :
    (patience last).coupling.Ends (m.polls + 1) (patience last).coupling.Same
      (Run.safePoint (s.upTo horizon) m) (Run.safePoint (s.upTo horizon') m) := by
  have hnot {h : Nat} (hh : last ≤ h) : ¬ (s.upTo h).horizon ≤ m.polls :=
    Nat.not_le_of_lt (Nat.lt_of_lt_of_le hm hh)
  unfold Run.safePoint
  rw [if_neg (hnot hle), if_neg (hnot hle')]
  dsimp only [Setting.upTo]
  cases hanswer : s.answer m.polls m.host.logged with
  | some reason => exact .final (Nat.le_refl _) ⟨reason, _, _, rfl, rfl, rfl, hm⟩
  | none =>
    have hmore : m.polls + 1 < last := by
      refine Nat.lt_of_le_of_ne hm fun heq => ?_
      have hsome := hlast m.host.logged
      rw [← heq, Nat.add_sub_cancel, hanswer] at hsome
      exact nomatch hsome
    have hgood : (patience last).Good (m.polls + 1) { m with polls := m.polls + 1 } :=
      ⟨Nat.le_refl _, hmore⟩
    cases m.pending with
    | none => exact .ok (Nat.le_refl _) ⟨rfl, hgood⟩ rfl
    | some value => exact .abrupt (Nat.le_refl _) ⟨rfl, hgood⟩ (.thrown (.refl_eq value))

theorem safePoint (hlast : ∀ logged, (s.answer (last - 1) logged).isSome)
    (hle : last ≤ horizon) (hle' : last ≤ horizon') :
    (patience last).coupling.Follows (s.upTo horizon) (s.upTo horizon') w
      (patience last).coupling.Same Run.safePoint Run.safePoint := by
  rintro v - m _ ⟨rfl, hm⟩
  exact (safePoint_ends hlast hle hle' hm.2).earlier (Nat.le_succ_of_le hm.1)

/-- Each round makes a poll, so neither side runs out of rounds before the last poll. -/
theorem repeatFor (hlast : ∀ logged, (s.answer (last - 1) logged).isSome)
    (hle : last ≤ horizon) (hle' : last ≤ horizon') {x y : Run Bool}
    (h : (patience last).coupling.Follows (s.upTo horizon) (s.upTo horizon') w
      (patience last).coupling.Same x y) (rounds rounds' : Nat) (hrounds : last < w + rounds)
    (hrounds' : last < w + rounds') :
    (patience last).coupling.Follows (s.upTo horizon) (s.upTo horizon') w
      (patience last).coupling.Same (Run.repeatFor (Run.safePoint >>= fun _ => x) rounds)
      (Run.repeatFor (Run.safePoint >>= fun _ => y) rounds') := by
  induction rounds generalizing w rounds' with
  | zero =>
    rintro v hv m _ ⟨rfl, hm⟩
    exact absurd hrounds (Nat.not_lt_of_le (Nat.le_of_lt (Nat.lt_of_le_of_lt
      (Nat.le_trans hv hm.1) hm.2)))
  | succ rounds ih =>
    rintro v hv m _ ⟨rfl, hm⟩
    have hw : w ≤ m.polls := Nat.le_trans hv hm.1
    cases rounds' with
    | zero => exact absurd hrounds' (Nat.not_lt_of_le (Nat.le_of_lt (Nat.lt_of_le_of_lt hw hm.2)))
    | succ rounds' =>
      have hround := (safePoint_ends hlast hle hle' hm.2).bind fun u hu _ _ _ =>
        h.later (Nat.le_trans hw (Nat.le_of_succ_le hu))
      refine Coupling.Ends.earlier (Nat.le_succ_of_le hm.1) (hround.bind fun u hu a b hab => ?_)
      obtain rfl : a = b := hab
      have hu' : w + 1 ≤ u := Nat.le_trans (Nat.succ_le_succ hw) hu
      split
      · exact ih (h.later (Nat.le_of_succ_le hu')) rounds' (by omega) (by omega)
      · exact Coupling.Follows.skip

theorem repeatWhile (hlast : ∀ logged, (s.answer (last - 1) logged).isSome)
    (hle : last ≤ horizon) (hle' : last ≤ horizon') {x y : Run Bool}
    (h : (patience last).coupling.Follows (s.upTo horizon) (s.upTo horizon') w
      (patience last).coupling.Same x y) :
    (patience last).coupling.Follows (s.upTo horizon) (s.upTo horizon') w
      (patience last).coupling.Same (Run.repeatWhile x) (Run.repeatWhile y) := by
  rintro v hv m _ ⟨rfl, hm⟩
  have hrounds {h : Nat} (hh : last ≤ h) : last < m.polls + (h - m.polls + 1) := by
    have := hm.2
    omega
  have hloop := repeatFor hlast hle hle' (h.later (Nat.le_trans hv hm.1)) _ _ (hrounds hle)
    (hrounds hle')
  exact (hloop m.polls (Nat.le_refl _) m m ⟨rfl, Nat.le_refl _, hm.2⟩).earlier hm.1

theorem elementary (hlast : ∀ logged, (s.answer (last - 1) logged).isSome)
    (hle : last ≤ horizon) (hle' : last ≤ horizon') :
    (patience last).coupling.Elementary (s.upTo horizon) (s.upTo horizon') :=
  Lockstep.elementary rfl (fun _ _ hm => ⟨.memoryLimit, _, _, rfl, rfl, rfl, Nat.le_of_lt hm.2⟩)
    (fun _ => safePoint hlast hle hle') fun _ _ _ => repeatWhile hlast hle hle'

theorem nests (hlast : ∀ logged, (s.answer (last - 1) logged).isSome)
    (hle : last ≤ horizon) (hle' : last ≤ horizon') :
    (patience last).coupling.Nests (s.upTo horizon) (s.upTo horizon') := by
  refine Coupling.nests (elementary hlast hle hle').keeps
    (fun _ _ _ hst => congrArg (fun m => m.nesting.level) hst.1) ?_ ?_ ?_
  · rintro _ m _ ⟨rfl, hm⟩
    exact ⟨rfl, hm⟩
  · rintro _ m _ ⟨rfl, hm⟩
    exact ⟨rfl, hm⟩
  · rintro _ _ _ ⟨reason, m, m', rfl, rfl, hsame⟩
    exact ⟨reason, _, _, rfl, rfl, hsame⟩

theorem task (hlast : ∀ logged, (s.answer (last - 1) logged).isSome)
    (hle : last ≤ horizon) (hle' : last ≤ horizon') (task : Task) :
    (patience last).coupling.Follows (s.upTo horizon) (s.upTo horizon') w
      (patience last).coupling.Value task.run task.run :=
  Coupling.Common.task ⟨(elementary hlast hle hle').keeps, rfl, rfl, trivial⟩
    (nests hlast hle hle') (elementary hlast hle hle').connectEvent task

end patience

theorem Task.perform_upTo (s : Setting) (last : Nat) (hpos : 0 < last)
    (hlast : ∀ logged, (s.answer (last - 1) logged).isSome) (heap : Heap) (scopes : Scopes)
    (pending : Option Value) (host : Host) (task : Task) (horizon horizon' : Nat)
    (hle : last ≤ horizon) (hle' : last ≤ horizon') (completion completion' : Completion)
    (m m' : Machine)
    (h : task.perform (.start heap scopes pending host) (s.upTo horizon) = (completion, m))
    (h' : task.perform (.start heap scopes pending host) (s.upTo horizon') = (completion', m')) :
    completion = completion' ∧ m.world = m'.world ∧ completion ≠ .starved ∧ m.polls ≤ last := by
  have hends := patience.task hlast hle hle' task (Nat.zero) (Nat.le_refl _)
    (Machine.start heap scopes pending host) _ ⟨rfl, Nat.zero_le _, hpos⟩
  rw [perform_eq] at h h'
  generalize task.run (s.upTo horizon) (Machine.start heap scopes pending host) = r at h hends
  generalize task.run (s.upTo horizon') (Machine.start heap scopes pending host) = r' at h' hends
  cases hends with
  | ok _ hst hv =>
    obtain ⟨rfl, rfl⟩ := Prod.mk.inj h
    obtain ⟨rfl, rfl⟩ := Prod.mk.inj h'
    obtain ⟨rfl, hgood⟩ := hst
    exact ⟨congrArg _ (Value.Matches.eq_of_eq hv), rfl, nofun, Nat.le_of_lt hgood.2⟩
  | abrupt _ hst he =>
    obtain rfl := he.eq_of_eq
    obtain ⟨rfl, hgood⟩ := hst
    cases he with
    | _ =>
      obtain ⟨rfl, rfl⟩ := Prod.mk.inj h
      obtain ⟨rfl, rfl⟩ := Prod.mk.inj h'
      exact ⟨rfl, rfl, nofun, Nat.le_of_lt hgood.2⟩
  | final _ hover =>
    obtain ⟨reason, n, n', hfinal, hfinal', hworld, hpolls⟩ := hover
    rw [Run.final?_eq_some hfinal] at h
    rw [Run.final?_eq_some hfinal'] at h'
    obtain ⟨rfl, rfl⟩ := Prod.mk.inj h
    obtain ⟨rfl, rfl⟩ := Prod.mk.inj h'
    exact ⟨rfl, hworld, nofun, hpolls⟩

/-- A run one of whose polls is sure to be answered comes to an end, the same for every horizon. -/
theorem Task.perform_returns (s : Setting) (last : Nat) (hpos : 0 < last)
    (hlast : ∀ logged, (s.answer (last - 1) logged).isSome) (heap : Heap) (scopes : Scopes)
    (pending : Option Value) (host : Host) (task : Task) :
    ∃ completion world, completion ≠ Completion.starved ∧ world.polls ≤ last ∧
      ∀ horizon, last ≤ horizon →
        (task.perform (.start heap scopes pending host) (s.upTo horizon)).1 = completion ∧
          (task.perform (.start heap scopes pending host) (s.upTo horizon)).2.world = world := by
  have hsame := task.perform_upTo s last hpos hlast heap scopes pending host
  let ending := task.perform (.start heap scopes pending host) (s.upTo last)
  obtain ⟨-, -, hreturned, hpolls⟩ :=
    hsame last last (Nat.le_refl _) (Nat.le_refl _) _ _ _ _ rfl rfl
  refine ⟨ending.1, ending.2.world, hreturned, hpolls, fun horizon hle => ?_⟩
  obtain ⟨hcompletion, hworld, -⟩ := hsame horizon last hle (Nat.le_refl _) _ _ _ _ rfl rfl
  exact ⟨hcompletion, hworld⟩

/-- A loop without an end of its own, cut off at the third poll. -/
theorem Task.endless_returns :
    ∃ completion world, completion ≠ Completion.starved ∧ world.polls ≤ 3 ∧
      ∀ horizon, 3 ≤ horizon →
        let s : Setting := ⟨fun polls _ => if polls = 2 then some .terminated else none, 0, 128,
          ⟨0, 0, 0⟩, 0⟩
        let m := Machine.start (.empty 0 {}) .empty none (.new "" [] true (.dedicated .new))
        let task := Task.program [.mk 1 (.whileLoop (.bool true) (.mk 1 .empty))]
        (task.perform m (s.upTo horizon)).1 = completion ∧
          (task.perform m (s.upTo horizon)).2.world = world :=
  Task.perform_returns _ 3 (by decide) (fun _ => rfl) _ _ _ _ _

end ScriptHost

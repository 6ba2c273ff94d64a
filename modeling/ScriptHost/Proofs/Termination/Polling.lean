import Mathlib.Data.Nat.Count
import Mathlib.Order.Monotone.Basic
import ScriptHost.Worker

/-!
The answers of a watch to all of its polls. The counter comes round, and polls that find a request
to stop are not counted, but every 128th of the others looks at the clock.
-/

namespace ScriptHost

namespace Watch

variable {stop : Nat → Bool} {clock : Nat → Nat}

/-- The watch after as many polls, each with the request and the clock as they were by then. -/
def polled (w : Watch) (stop : Nat → Bool) (clock : Nat → Nat) : Nat → Watch
  | 0 => w
  | n + 1 => ((w.polled stop clock n).poll (stop n) (clock n)).2

def answer (w : Watch) (stop : Nat → Bool) (clock : Nat → Nat) (n : Nat) :
    Option TerminationReason :=
  ((w.polled stop clock n).poll (stop n) (clock n)).1

def counted (stop : Nat → Bool) (n : Nat) : Nat :=
  Nat.count (fun k => stop k = false) n

@[simp] theorem counted_zero : counted stop 0 = 0 :=
  Nat.count_zero _

theorem counted_succ_of_clear {n : Nat} (h : stop n = false) :
    counted stop (n + 1) = counted stop n + 1 :=
  Nat.count_succ_eq_succ_count h

theorem counted_succ_of_stop {n : Nat} (h : stop n = true) :
    counted stop (n + 1) = counted stop n :=
  Nat.count_succ_eq_count (by simp [h])

theorem counted_le (stop : Nat → Bool) (n : Nat) : counted stop n ≤ n :=
  Nat.count_le _

theorem counted_of_clear {n : Nat} (h : ∀ k < n, stop k = false) : counted stop n = n :=
  Nat.count_of_forall fun {k} hk => h k hk

theorem counted_add (stop : Nat → Bool) (n m : Nat) :
    counted stop (n + m) = counted stop n + counted (fun k => stop (n + k)) m :=
  Nat.count_add _ n m

/-! ## One poll -/

theorem after_zero (w : Watch) : w.after 0 = w := by
  simp [after]

theorem poll_of_stop (w : Watch) (now : Nat) : w.poll true now = (some .terminated, w) :=
  rfl

theorem ticks_mod (n : Nat) : UInt32.ofNat n % clockInterval = 0 ↔ 128 ∣ n := by
  rw [← UInt32.toNat_inj, UInt32.toNat_mod, UInt32.toNat_ofNat', Nat.dvd_iff_mod_eq_zero]
  -- The interval divides the number of values of the counter, so it may come round.
  change n % 2 ^ 32 % 128 = 0 ↔ n % 128 = 0
  rw [Nat.mod_mod_of_dvd n (by decide : 128 ∣ 2 ^ 32)]

theorem poll_of_clear (w : Watch) (n now : Nat) (hticks : w.ticks = 0) :
    (w.after n).poll false now =
      (if 128 ∣ n + 1 ∧ w.expired now = true then some .wallClockTimeout else none,
        w.after (n + 1)) := by
  have hnext : (w.after n).ticks + 1 = UInt32.ofNat (n + 1) := by
    simp [after, hticks, UInt32.ofNat_add]
  have hafter : { w.after n with ticks := (w.after n).ticks + 1 } = w.after (n + 1) := by
    simp [after, hticks]
  have hexpired : (w.after (n + 1)).expired now = w.expired now := rfl
  unfold poll
  rw [if_neg Bool.false_ne_true]
  dsimp only
  rw [hafter, hnext, hexpired]
  simp only [ne_eq, ticks_mod]
  by_cases hdvd : 128 ∣ n + 1
  · by_cases hnow : w.expired now = true
    · simp [hdvd, hnow]
    · simp [hdvd, hnow]
  · simp [hdvd]

/-! ## All polls -/

theorem polled_eq (w : Watch) (hticks : w.ticks = 0) (stop : Nat → Bool) (clock : Nat → Nat)
    (n : Nat) : w.polled stop clock n = w.after (counted stop n) := by
  induction n with
  | zero => rw [counted_zero, after_zero, polled]
  | succ n ih =>
    rw [polled, ih]
    cases hstop : stop n with
    | true => rw [poll_of_stop, counted_succ_of_stop hstop]
    | false => rw [poll_of_clear w _ _ hticks, counted_succ_of_clear hstop]

theorem answer_of_stop (w : Watch) {n : Nat} (h : stop n = true) :
    w.answer stop clock n = some .terminated := by
  rw [answer, h, poll_of_stop]

theorem answer_of_clear (w : Watch) (hticks : w.ticks = 0) {n : Nat} (h : stop n = false) :
    w.answer stop clock n =
      if 128 ∣ counted stop (n + 1) ∧ w.expired (clock n) = true then some .wallClockTimeout
      else none := by
  rw [answer, polled_eq w hticks, h, poll_of_clear w _ _ hticks, counted_succ_of_clear h]

theorem answer_eq_timeout_iff (w : Watch) (hticks : w.ticks = 0) {n : Nat} :
    w.answer stop clock n = some .wallClockTimeout ↔
      stop n = false ∧ 128 ∣ counted stop (n + 1) ∧ w.expired (clock n) = true := by
  cases hstop : stop n with
  | true => simp [answer_of_stop w hstop]
  | false => simp [answer_of_clear w hticks hstop]

theorem answer_eq_terminated_iff (w : Watch) (hticks : w.ticks = 0) {n : Nat} :
    w.answer stop clock n = some .terminated ↔ stop n = true := by
  cases hstop : stop n with
  | true => simp [answer_of_stop w hstop]
  | false =>
    rw [answer_of_clear w hticks hstop]
    split <;> simp

theorem exists_counted_eq (stop : Nat → Bool) {n m target : Nat} (hlow : counted stop n < target)
    (hhigh : target ≤ counted stop (n + m)) :
    ∃ k < m, stop (n + k) = false ∧ counted stop (n + k + 1) = target := by
  -- The count goes up by one at a time, so it passes every number on its way.
  induction m with
  | zero => exact absurd hhigh (Nat.not_le_of_lt hlow)
  | succ m ih =>
    by_cases hearlier : target ≤ counted stop (n + m)
    · obtain ⟨k, hk, hfound⟩ := ih hearlier
      exact ⟨k, Nat.lt_succ_of_lt hk, hfound⟩
    · have hhigh : target ≤ counted stop (n + m + 1) := hhigh
      cases hstop : stop (n + m) with
      | true => exact absurd (counted_succ_of_stop hstop ▸ hhigh) hearlier
      | false =>
        refine ⟨m, Nat.lt_succ_self m, hstop, ?_⟩
        rw [counted_succ_of_clear hstop] at hhigh ⊢
        omega

theorem exists_timeout (w : Watch) (hticks : w.ticks = 0) {n m : Nat}
    (hpolls : 128 ≤ counted (fun k => stop (n + k)) m)
    (hexpired : ∀ k < m, w.expired (clock (n + k)) = true) :
    ∃ k < m, w.answer stop clock (n + k) = some .wallClockTimeout := by
  have hsum := counted_add stop n m
  have hnext : counted stop n < 128 * (counted stop n / 128 + 1) := by omega
  have hreached : 128 * (counted stop n / 128 + 1) ≤ counted stop (n + m) := by omega
  obtain ⟨k, hk, hstop, hcount⟩ := exists_counted_eq stop hnext hreached
  refine ⟨k, hk, (answer_eq_timeout_iff w hticks).2 ⟨hstop, ?_, hexpired k hk⟩⟩
  rw [hcount]
  exact Nat.dvd_mul_right 128 _

theorem expired_start {budget : Option Nat} {begun now : Nat} :
    (start budget begun).expired now = true ↔
      ∃ allowed, budget = some allowed ∧ begun + allowed ≤ now := by
  cases budget <;> simp [start, expired]

/--
A request to stop is answered at once, and only then is the answer that there is one. Once the time
is up, it is noticed within 128 polls that find no request, and never before, nor without a budget,
nor by one of the first 127 polls.
-/
theorem polls_answered (budget : Option Nat) (begun : Nat) (stop : Nat → Bool) (clock : Nat → Nat)
    (hclock : Monotone clock) (n : Nat) :
    let answer := (start budget begun).answer stop clock
    (stop n = true → answer n = some .terminated) ∧
    (∀ allowed, budget = some allowed → begun + allowed ≤ clock n →
      (∀ k < 128, stop (n + k) = false) → ∃ k < 128, answer (n + k) = some .wallClockTimeout) ∧
    (answer n = some .wallClockTimeout →
      127 ≤ n ∧ ∃ allowed, budget = some allowed ∧ begun + allowed ≤ clock n) ∧
    (answer n = some .terminated → stop n = true) := by
  intro answer
  have hticks : (start budget begun).ticks = 0 := rfl
  refine ⟨answer_of_stop _, fun allowed hbudget hlate hclear => ?_, fun htimeout => ?_,
    (answer_eq_terminated_iff _ hticks).1⟩
  · have hpolls : counted (fun k => stop (n + k)) 128 = 128 := counted_of_clear hclear
    refine exists_timeout _ hticks (Nat.le_of_eq hpolls.symm) fun k _ => ?_
    have hlater : clock n ≤ clock (n + k) := hclock (Nat.le_add_right n k)
    exact expired_start.2 ⟨allowed, hbudget, Nat.le_trans hlate hlater⟩
  · obtain ⟨hstop, hdvd, hexpired⟩ := (answer_eq_timeout_iff _ hticks).1 htimeout
    have hpositive : 0 < counted stop (n + 1) := by
      rw [counted_succ_of_clear hstop]
      exact Nat.succ_pos _
    have hcount := Nat.le_trans (Nat.le_of_dvd hpositive hdvd) (counted_le stop (n + 1))
    exact ⟨Nat.le_of_succ_le_succ hcount, expired_start.1 hexpired⟩

/-- The counter has come round, and every third poll so far has found a request. -/
theorem polls_answered_late :
    ∃ k < 128, (start (some 5) 0).answer (fun n => n < 2 ^ 34 && n % 3 == 0) id (2 ^ 34 + k) =
      some .wallClockTimeout := by
  have hclear : ∀ k < 128, (decide (2 ^ 34 + k < 2 ^ 34) && (2 ^ 34 + k) % 3 == 0) = false :=
    fun k _ => by simp
  exact (polls_answered (some 5) 0 (fun n => n < 2 ^ 34 && n % 3 == 0) id monotone_id
    (2 ^ 34)).2.1 5 rfl (by decide) hclear

end Watch

namespace Worker

/-- A run goes on only while its polls are answered with nothing, so each of them is counted. -/
theorem oversight_answer (w : Worker) (guard : Guard) (around : Surroundings) (logged : Nat → Nat)
    (n : Nat) (h : ∀ k < n, (w.oversight guard around).answer k (logged k) = none) :
    (w.oversight guard around).answer n (logged n) =
      (Watch.start w.budget (around.clock 0)).answer
        (fun k => guard.shouldTerminate || around.stopAsked k (logged k))
        (fun k => around.clock (k + 1)) n := by
  let stop (k : Nat) : Bool := guard.shouldTerminate || around.stopAsked k (logged k)
  have hclear : ∀ k < n, stop k = false := fun k hk => by
    have hnone : (((Watch.start w.budget (around.clock 0)).after k).poll (stop k)
      (around.clock (k + 1))).1 = none := h k hk
    cases hstop : stop k with
    | true =>
      rw [hstop, Watch.poll_of_stop] at hnone
      exact nomatch hnone
    | false => rfl
  rw [Watch.answer, Watch.polled_eq _ rfl, Watch.counted_of_clear hclear]
  rfl

end Worker

end ScriptHost

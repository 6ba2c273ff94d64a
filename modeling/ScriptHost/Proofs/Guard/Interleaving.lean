import ScriptHost.Proofs.Session.Operations

/-!
A guard that any number of threads use to forbid, while the workers under it go about their
operations. Whatever happens next to whom, a worker that asks a guard that has forbidden does
nothing at all.
-/

namespace ScriptHost

/-- What a call that forbids writes, one thing after another. -/
inductive GuardWrite where
  | bar
  | request
  | signal
  deriving DecidableEq, Repr

def ForbidMode.writes : ForbidMode → List GuardWrite
  | soft => [.bar]
  | terminate => [.bar, .request, .signal]

namespace Guard

def write (g : Guard) : GuardWrite → Guard
  | .bar => { g with forbidden := true }
  | .request => { g with terminationRequested := true }
  | .signal => { g with shouldTerminate := true }

theorem foldl_writes (g : Guard) (mode : ForbidMode) :
    mode.writes.foldl write g = g.forbid mode := by
  cases mode <;> rfl

/-- Nothing that was set has been cleared. -/
structure Upto (g g' : Guard) : Prop where
  forbidden : g.forbidden = true → g'.forbidden = true
  requested : g.terminationRequested = true → g'.terminationRequested = true
  signalled : g.shouldTerminate = true → g'.shouldTerminate = true

theorem Upto.refl (g : Guard) : g.Upto g :=
  ⟨id, id, id⟩

theorem Upto.trans {g g' g'' : Guard} (h : g.Upto g') (h' : g'.Upto g'') : g.Upto g'' :=
  ⟨h'.forbidden ∘ h.forbidden, h'.requested ∘ h.requested, h'.signalled ∘ h.signalled⟩

theorem upto_write (g : Guard) (change : GuardWrite) : g.Upto (g.write change) := by
  cases change <;> constructor <;> simp [write]

/-- The guard after calls of these modes, the latest of which comes first. -/
def afterCalls (modes : List ForbidMode) : Guard :=
  modes.foldr (fun mode g => g.forbid mode) .new

theorem afterCalls_eq (modes : List ForbidMode) :
    afterCalls modes =
      ⟨!modes.isEmpty, modes.contains .terminate, modes.contains .terminate⟩ := by
  induction modes with
  | nil => rfl
  | cons mode modes ih =>
    have hstep : afterCalls (mode :: modes) = (afterCalls modes).forbid mode := rfl
    rw [hstep, ih]
    cases mode <;> simp [forbid]

end Guard

/-- A call under way, which holds the lock, and how many of its writes it has made. -/
structure ForbidCall where
  thread : Nat
  mode : ForbidMode
  made : Nat
  deriving DecidableEq, Repr

namespace ForbidCall

/-- The guard in the midst of a call that found it as given. -/
def midway (c : ForbidCall) (g : Guard) : Guard :=
  (c.mode.writes.take c.made).foldl Guard.write g

theorem midway_next {c : ForbidCall} {change : GuardWrite}
    (h : c.mode.writes[c.made]? = some change) (g : Guard) :
    ({ c with made := c.made + 1 } : ForbidCall).midway g = (c.midway g).write change := by
  simp [midway, List.take_add_one, h, List.foldl_append]

theorem midway_done {c : ForbidCall} (h : c.mode.writes[c.made]? = none) (g : Guard) :
    c.midway g = g.forbid c.mode := by
  rw [midway, List.take_of_length_le (List.getElem?_eq_none_iff.1 h), Guard.foldl_writes]

theorem forbidden_midway {c : ForbidCall} {g : Guard}
    (hg : g.terminationRequested = true → g.forbidden = true) :
    (c.midway g).terminationRequested = true → (c.midway g).forbidden = true := by
  obtain ⟨thread, mode, made⟩ := c
  rcases made with _ | _ | _ | made <;> cases mode <;>
    simp_all [midway, ForbidMode.writes, Guard.write]

end ForbidCall

/-! ## Workers under the guard -/

/-- The operations that ask the guard first. -/
def Operation.asksGuard : Operation → Bool
  | evaluate .. => true
  | deliver _ => true
  | connect => true
  | _ => false

/-- Whether a worker of that kind runs the operation, if it is not forbidden to. -/
def Operation.isRunOf (kind : WorkerKind) : Operation → Bool
  | evaluate .. => true
  | deliver _ => kind = .dedicated
  | connect => kind = .shared
  | _ => false

theorem Operation.asksGuard_of_isRunOf {op : Operation} {kind : WorkerKind}
    (h : op.isRunOf kind = true) : op.asksGuard = true := by
  cases op <;> simp_all [isRunOf, asksGuard]

/--
An operation under way: the worker and the guard it began with, how many calls had forbidden by
then, and what the looks at the signal have shown since.
-/
structure Engagement where
  operation : Operation
  before : Worker
  guard : Guard
  forbids : Nat
  readings : Array Bool

/-- A worker at its thread, and what it is busy with. -/
structure Desk where
  worker : Worker
  given : List Value
  engagement : Option Engagement

/-- An operation that has been done. -/
structure Deed where
  operation : Operation
  forbids : Nat
  before : Worker
  after : Worker
  reply : Reply

namespace Desk

def engage (d : Desk) (op : Operation) (guard : Guard) (forbids : Nat) : Desk :=
  match d.engagement with
  | none => { d with engagement := some ⟨op, d.worker, guard, forbids, #[]⟩ }
  | some _ => d

def read (d : Desk) (signal : Bool) : Desk :=
  { d with engagement := d.engagement.map fun e => { e with readings := e.readings.push signal } }

def perform (d : Desk) (e : Engagement) (clock : Nat → Nat) (horizon : Nat) : Reply × Worker :=
  d.worker.perform d.given e.guard ⟨clock, fun polls _ => e.readings[polls]?.getD false, horizon⟩
    e.operation

end Desk

/-- The calls that have been made are known by their modes, the latest of which comes first. -/
structure Office where
  guard : Guard
  call : Option ForbidCall
  modes : List ForbidMode
  desks : List Desk
  deeds : List Deed

inductive Action where
  | enter (thread : Nat) (mode : ForbidMode)
  | proceed (thread : Nat)
  | check (desk : Nat) (op : Operation)
  | poll (desk : Nat) (late : Bool)
  | finish (desk : Nat) (clock : Nat → Nat) (horizon : Nat)

namespace Office

def opened (workers : List Worker) : Office where
  guard := .new
  call := none
  modes := []
  desks := workers.map fun worker => ⟨worker, [], none⟩
  deeds := []

def enter (s : Office) (thread : Nat) (mode : ForbidMode) : Office :=
  match s.call with
  | none => { s with call := some ⟨thread, mode, 0⟩ }
  | some _ => s

/-- The next write of the call, or the lock is given back. -/
def proceed (s : Office) (thread : Nat) : Office :=
  match s.call with
  | none => s
  | some c =>
      if c.thread = thread then
        match c.mode.writes[c.made]? with
        | some change =>
            { s with guard := s.guard.write change, call := some { c with made := c.made + 1 } }
        | none => { s with call := none, modes := c.mode :: s.modes }
      else s

/-- Whoever asks the guard waits for the lock. -/
def check (s : Office) (desk : Nat) (op : Operation) : Office :=
  if s.call.isSome && op.asksGuard then s
  else { s with desks := s.desks.modify desk fun d => d.engage op s.guard s.modes.length }

/-- A look at the signal, which is not locked, may come too early to see it. -/
def poll (s : Office) (desk : Nat) (late : Bool) : Office :=
  { s with desks := s.desks.modify desk fun d => d.read (s.guard.shouldTerminate && !late) }

def finish (s : Office) (desk : Nat) (clock : Nat → Nat) (horizon : Nat) : Office :=
  match s.desks[desk]? with
  | none => s
  | some d =>
      match d.engagement with
      | none => s
      | some e =>
          let (reply, worker) := d.perform e clock horizon
          { s with
            desks := s.desks.set desk ⟨worker, reply.given d.given, none⟩
            deeds := ⟨e.operation, e.forbids, e.before, worker, reply⟩ :: s.deeds }

/-- An action that cannot be done yet changes nothing. -/
def step (s : Office) : Action → Office
  | .enter thread mode => s.enter thread mode
  | .proceed thread => s.proceed thread
  | .check desk op => s.check desk op
  | .poll desk late => s.poll desk late
  | .finish desk clock horizon => s.finish desk clock horizon

def run (s : Office) (actions : List Action) : Office :=
  actions.foldl step s

end Office

/-! ## What a worker does that may not run -/

theorem Worker.perform_forbidden {guard : Guard} (hguard : guard.forbidden = true) (w : Worker)
    (given : List Value) (around : Surroundings) {op : Operation}
    (hop : op.isRunOf w.host.kind = true) :
    w.perform given guard around op = (.outcome .suppressed, w) := by
  cases op with
  | evaluate source policy => simp [perform, evaluate_eq, hguard]
  | deliver payload =>
    have hkind : w.host.kind = .dedicated := by simpa [Operation.isRunOf] using hop
    simp [perform, deliver_eq, hguard, hkind, Except.map, reply]
  | connect =>
    have hkind : w.host.kind = .shared := by simpa [Operation.isRunOf] using hop
    simp [perform, connect_eq, hguard, hkind, Except.map, reply]
  | _ => simp [Operation.isRunOf] at hop

/-! ## Offices, one action after another -/

/-- An operation that asked the guard after a call knows of the ban. -/
structure Engagement.Informed (e : Engagement) (worker : Worker) : Prop where
  before : e.before = worker
  forbidden : e.operation.asksGuard = true → e.forbids ≠ 0 → e.guard.forbidden = true

def Desk.Sound (d : Desk) : Prop :=
  ∀ e ∈ d.engagement, e.Informed d.worker

theorem Desk.Sound.perform {d : Desk} {e : Engagement} (h : d.Sound) (he : d.engagement = some e)
    (hrun : e.operation.isRunOf e.before.host.kind = true) (hforbids : e.forbids ≠ 0)
    (clock : Nat → Nat) (horizon : Nat) :
    d.perform e clock horizon = (.outcome .suppressed, e.before) := by
  obtain ⟨hbefore, hforbidden⟩ := h e he
  rw [hbefore] at hrun ⊢
  exact Worker.perform_forbidden (hforbidden (Operation.asksGuard_of_isRunOf hrun) hforbids)
    d.worker d.given _ hrun

def Deed.Suppressed (d : Deed) : Prop :=
  d.operation.isRunOf d.before.host.kind = true → d.forbids ≠ 0 →
    d.reply = .outcome .suppressed ∧ d.after = d.before

namespace Office

/-- What holds at any moment. -/
structure Sound (s : Office) : Prop where
  guard : s.guard = s.call.elim (Guard.afterCalls s.modes) fun c => c.midway (.afterCalls s.modes)
  desks : ∀ d ∈ s.desks, d.Sound
  deeds : ∀ d ∈ s.deeds, d.Suppressed

theorem sound_opened (workers : List Worker) : (opened workers).Sound := by
  refine ⟨rfl, ?_, by simp [opened]⟩
  intro d hd e he
  obtain ⟨worker, -, rfl⟩ := List.mem_map.1 hd
  simp at he

theorem Sound.guard_of_unlocked {s : Office} (h : s.Sound) (hcall : s.call = none) :
    s.guard = .afterCalls s.modes := by
  simpa [hcall] using h.guard

theorem Sound.enter {s : Office} (h : s.Sound) (thread : Nat) (mode : ForbidMode) :
    (s.enter thread mode).Sound := by
  unfold Office.enter
  cases hcall : s.call with
  | none => exact ⟨by simpa [ForbidCall.midway] using h.guard_of_unlocked hcall, h.desks, h.deeds⟩
  | some c => exact h

theorem Sound.proceed {s : Office} (h : s.Sound) (thread : Nat) : (s.proceed thread).Sound := by
  unfold Office.proceed
  cases hcall : s.call with
  | none => exact h
  | some c =>
    have hguard : s.guard = c.midway (.afterCalls s.modes) := by simpa [hcall] using h.guard
    dsimp only
    split
    · cases hwrite : c.mode.writes[c.made]? with
      | some change =>
        refine ⟨?_, h.desks, h.deeds⟩
        simp [ForbidCall.midway_next hwrite, hguard]
      | none =>
        refine ⟨?_, h.desks, h.deeds⟩
        simp [hguard, ForbidCall.midway_done hwrite, Guard.afterCalls]
    · exact h

theorem mem_modify {α : Type} {xs : List α} {f : α → α} {i : Nat} {y : α}
    (h : y ∈ xs.modify i f) : y ∈ xs ∨ ∃ x ∈ xs, y = f x := by
  obtain ⟨n, hn⟩ := List.mem_iff_getElem?.1 h
  rw [List.getElem?_modify] at hn
  cases hx : xs[n]? with
  | none => simp [hx] at hn
  | some x =>
    have hmem : x ∈ xs := List.mem_of_getElem? hx
    by_cases hi : i = n
    · exact .inr ⟨x, hmem, by simpa [hx, hi] using hn.symm⟩
    · obtain rfl : x = y := by simpa [hx, hi] using hn
      exact .inl hmem

theorem Sound.modifyDesk {s : Office} (h : s.Sound) (desk : Nat) {f : Desk → Desk}
    (hf : ∀ d ∈ s.desks, d.Sound → (f d).Sound) :
    ({ s with desks := s.desks.modify desk f } : Office).Sound := by
  refine ⟨h.guard, ?_, h.deeds⟩
  intro d hd
  rcases mem_modify hd with hold | ⟨d, hold, rfl⟩
  · exact h.desks d hold
  · exact hf d hold (h.desks d hold)

theorem Sound.check {s : Office} (h : s.Sound) (desk : Nat) (op : Operation) :
    (s.check desk op).Sound := by
  unfold Office.check
  split
  · exact h
  · next hfree =>
    refine h.modifyDesk desk ?_
    intro d hd hsound
    unfold Desk.engage
    cases hidle : d.engagement with
    | some busy => exact hsound
    | none =>
      intro e he
      obtain rfl : (⟨op, d.worker, s.guard, s.modes.length, #[]⟩ : Engagement) = e := by
        simpa using he
      refine ⟨rfl, ?_⟩
      intro hasks hforbids
      have hcall : s.call = none := by
        simpa [show op.asksGuard = true from hasks] using hfree
      have hmodes : s.modes ≠ [] := by simpa using hforbids
      simp [h.guard_of_unlocked hcall, Guard.afterCalls_eq, hmodes]

theorem Sound.poll {s : Office} (h : s.Sound) (desk : Nat) (late : Bool) :
    (s.poll desk late).Sound := by
  refine h.modifyDesk desk ?_
  intro d hd hsound e he
  obtain ⟨e, hbusy, rfl⟩ := Option.map_eq_some_iff.1 he
  exact ⟨(hsound e hbusy).before, (hsound e hbusy).forbidden⟩

theorem Sound.finish {s : Office} (h : s.Sound) (desk : Nat) (clock : Nat → Nat) (horizon : Nat) :
    (s.finish desk clock horizon).Sound := by
  unfold Office.finish
  cases hdesk : s.desks[desk]? with
  | none => exact h
  | some d =>
    cases hbusy : d.engagement with
    | none => simpa [hbusy] using h
    | some e =>
      have hsound : d.Sound := h.desks d (List.mem_of_getElem? hdesk)
      simp only [hbusy]
      refine ⟨h.guard, ?_, ?_⟩
      · intro d' hd'
        rcases List.mem_or_eq_of_mem_set hd' with hold | rfl
        · exact h.desks d' hold
        · simp [Desk.Sound]
      · intro deed hdeed
        rcases List.mem_cons.1 hdeed with rfl | hold
        · intro hrun hforbids
          simp [hsound.perform hbusy hrun hforbids clock horizon]
        · exact h.deeds deed hold

theorem Sound.step {s : Office} (h : s.Sound) (action : Action) : (s.step action).Sound := by
  cases action with
  | enter thread mode => exact h.enter thread mode
  | proceed thread => exact h.proceed thread
  | check desk op => exact h.check desk op
  | poll desk late => exact h.poll desk late
  | finish desk clock horizon => exact h.finish desk clock horizon

theorem Sound.run {s : Office} (h : s.Sound) (actions : List Action) : (s.run actions).Sound := by
  induction actions generalizing s with
  | nil => exact h
  | cons action actions ih => exact ih (h.step action)

theorem upto_step (s : Office) (action : Action) : s.guard.Upto (s.step action).guard := by
  cases action with
  | enter thread mode =>
    simp only [step, enter]
    split <;> exact .refl _
  | proceed thread =>
    simp only [step, proceed]
    split
    · exact .refl _
    · split
      · split
        · exact Guard.upto_write _ _
        · exact .refl _
      · exact .refl _
  | check desk op =>
    simp only [step, check]
    split <;> exact .refl _
  | poll desk late => exact .refl _
  | finish desk clock horizon =>
    simp only [step, finish]
    split
    · exact .refl _
    · split <;> exact .refl _

theorem upto_run (s : Office) (actions : List Action) : s.guard.Upto (s.run actions).guard := by
  induction actions generalizing s with
  | nil => exact .refl _
  | cons action actions ih => exact (s.upto_step action).trans (ih (s.step action))

theorem Sound.forbidden_of_requested {s : Office} (h : s.Sound)
    (hrequested : s.guard.terminationRequested = true) : s.guard.forbidden = true := by
  have hordered : (Guard.afterCalls s.modes).terminationRequested = true →
      (Guard.afterCalls s.modes).forbidden = true := by
    simp only [Guard.afterCalls_eq, List.contains_iff_mem]
    intro hmem
    simp [List.ne_nil_of_mem hmem]
  rw [h.guard] at hrequested ⊢
  cases hcall : s.call with
  | none =>
    rw [hcall] at hrequested
    exact hordered hrequested
  | some c =>
    rw [hcall] at hrequested
    exact ForbidCall.forbidden_midway hordered hrequested

/--
However the calls of any threads and the operations of any workers are interleaved, what a guard
was told lasts, a request to stop comes with a ban, and in the end only the modes of the calls
count. An operation that asks the guard after a call was made is suppressed and leaves its worker
exactly as it was.
-/
theorem ban_is_final (workers : List Worker) (earlier later : List Action) :
    let s := (opened workers).run earlier
    s.guard.Upto (s.run later).guard ∧
      (s.guard.terminationRequested = true → s.guard.forbidden = true) ∧
      (s.call = none → s.guard =
        ⟨!s.modes.isEmpty, s.modes.contains .terminate, s.modes.contains .terminate⟩) ∧
      (∀ d ∈ s.desks, ∀ e ∈ d.engagement, e.operation.isRunOf e.before.host.kind = true →
        e.forbids ≠ 0 → ∀ clock horizon,
          d.perform e clock horizon = (.outcome .suppressed, e.before)) ∧
      ∀ d ∈ s.deeds, d.operation.isRunOf d.before.host.kind = true → d.forbids ≠ 0 →
        d.reply = .outcome .suppressed ∧ d.after = d.before := by
  intro s
  have hsound : s.Sound := (sound_opened workers).run earlier
  refine ⟨s.upto_run later, hsound.forbidden_of_requested, ?_, ?_, hsound.deeds⟩
  · intro hcall
    rw [hsound.guard_of_unlocked hcall, Guard.afterCalls_eq]
  · intro d hd e he hrun hforbids clock horizon
    exact (hsound.desks d hd).perform he hrun hforbids clock horizon

/-- A call in two steps, and an operation that comes after it. -/
example (worker : Worker) :
    ((opened [worker]).run [.enter 7 .soft, .proceed 7, .proceed 7,
      .check 0 (.evaluate (.anonymous "1") .report), .finish 0 (fun _ => 0) 9]).deeds =
        [⟨.evaluate (.anonymous "1") .report, 1, worker, worker, .outcome .suppressed⟩] := rfl

end Office

end ScriptHost

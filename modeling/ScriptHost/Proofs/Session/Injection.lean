import ScriptHost.Proofs.Session.Dangling
import ScriptHost.Proofs.Session.Memory
import ScriptHost.Proofs.Session.Orderly

/-!
Exceptions that a host injects. Such an exception waits for the next run that comes to a safe point,
and is thrown there, once, before any statement of the script.
-/

namespace ScriptHost

/-! ## Turns -/

/-- Nothing stops the turn before its run has come to a safe point. -/
structure Turn.Unhindered (t : Turn) : Prop where
  allowed : t.guard.forbidden = false
  unstopped : t.guard.shouldTerminate = false
  unasked : ∀ logged, t.stopAsked 0 logged = false
  begun : 0 < t.horizon

theorem Turn.Unhindered.answer {t : Turn} (ht : t.Unhindered) (w : Worker) (clock : Nat → Nat)
    (logged : Nat) : (w.oversight t.guard (t.around clock)).answer 0 logged = none := by
  unfold Worker.oversight Turn.around
  dsimp only
  rw [ht.unstopped, ht.unasked]
  rfl

def Operation.injects : Operation → Bool
  | .inject _ => true
  | .deliver payload => (Json.ofBytes payload).toOption.isNone
  | _ => false

namespace Session

variable {s : Session} {t : Turn} {clock : Nat → Nat} {w : Worker} {v : Value} {g : GlobalScope}
  {heap : Heap} {line : Nat} {origin : String} {policy : ErrorPolicy} {reporting : Bool}

/-- A turn that throws, and leaves all of the worker as it is but for its heap and the slot. -/
structure Throws (r : Event × Session) (w : Worker) (v : Value) (heap : Heap) (origin : String)
    (line : Nat) (reported : Bool) : Prop where
  reply : r.1.reply = .outcome (.thrown v (heap.display v) line)
  reports : r.1.reports =
    if reported then [⟨v, heap.errorKind? v, heap.display v, origin, line⟩] else []
  host : r.1.host = w.host
  worker : r.2.worker =
    { w with environment := { w.environment with heap := heap, pending := none } }

theorem throws_of (clock : Nat → Nat) (policy : ErrorPolicy)
    (hreports : w.reports = if reporting then some #[] else none)
    (howns : heap.owns v = true)
    (hperform : s.worker.perform s.given t.guard (t.around clock) t.operation =
      (Worker.classify
        { w with environment := { w.environment with heap := heap, pending := none } }
        (.thrown v line) origin policy).map .outcome id) :
    Throws (s.turn clock t) w v heap origin line (reporting && policy = .report) := by
  obtain ⟨environment, host, budget, reports⟩ := w
  obtain rfl : reports = _ := hreports
  have hmessage : Environment.describe { environment with heap := heap, pending := none } v =
      heap.display v := if_pos howns
  unfold turn
  rw [hperform]
  unfold Worker.classify
  dsimp only
  rw [hmessage]
  cases reporting <;> cases policy <;> exact ⟨rfl, rfl, rfl, rfl⟩

/-- What holds of every session on its way. -/
structure Standing (s : Session) (reporting : Bool) : Prop where
  orderly : s.worker.environment.Orderly
  solvent : ∃ budget credit, s.worker.Solvent budget credit
  clean : s.worker.environment.NoDangling
  reports : s.worker.reports = if reporting then some #[] else none

theorem orderly_after (hs : s.worker.environment.Orderly) (clocks : Nat → Nat → Nat)
    (turns : List Turn) : (s.after clocks turns).worker.environment.Orderly := by
  induction turns generalizing s clocks with
  | nil => exact hs
  | cons t turns ih =>
      have hstages := (s.advances_turn (clocks 0) t).stages
      exact ih (hstages.keep (P := fun _ e _ => e.Orderly) (fun h ho => ho.stage h) [] hs) _

theorem reports_turn (hs : s.worker.reports = if reporting then some #[] else none)
    (clock : Nat → Nat) (t : Turn) :
    (s.turn clock t).2.worker.reports = if reporting then some #[] else none := by
  have hsome : (s.worker.perform s.given t.guard (t.around clock) t.operation).2.reports.isSome =
      s.worker.reports.isSome := (Worker.advances_perform t.operation).reports
  rw [hs] at hsome
  change (s.worker.perform s.given t.guard (t.around clock) t.operation).2.reports.map
    (fun _ => #[]) = _
  generalize (s.worker.perform s.given t.guard (t.around clock) t.operation).2.reports = r at hsome ⊢
  cases reporting <;> cases r <;> first | rfl | exact nomatch hsome

theorem reports_after (hs : s.worker.reports = if reporting then some #[] else none)
    (clocks : Nat → Nat → Nat) (turns : List Turn) :
    (s.after clocks turns).worker.reports = if reporting then some #[] else none := by
  induction turns generalizing s clocks with
  | nil => exact hs
  | cons t turns ih => exact ih (reports_turn hs (clocks 0) t) _

theorem standing_after (arena : Nat) (host : Host) (limits : Limits) (reporting : Bool)
    (clocks : Nat → Nat → Nat) (turns : List Turn) :
    ((start arena host limits reporting).after clocks turns).Standing reporting :=
  ⟨orderly_after (.inl ⟨rfl, rfl⟩) clocks turns,
    ⟨_, _, solvent_after (solvent_start arena host limits reporting) clocks turns⟩,
    noDangling_after arena host limits reporting clocks turns, reports_after rfl clocks turns⟩

namespace Standing

theorem opened (hs : s.Standing reporting) (hpending : s.worker.environment.pending = some v) :
    ∃ g, s.worker.environment.Opened g :=
  hs.orderly.resolve_left fun hnone => nomatch hnone.2.symm.trans hpending

/-- The objects that a collection before a run has to keep. -/
theorem kept (hs : s.Standing reporting) (ho : s.worker.environment.Opened g) {id : ObjectId}
    (hid : id = g.object ∨ s.worker.environment.pending = some (.object id)) :
    s.worker.environment.heap.isLive id = true ∧
      (s.worker.environment.collectGarbage g).heap.find? id =
        s.worker.environment.heap.find? id := by
  rw [Environment.collectGarbage_eq]
  rcases hid with rfl | hpending
  · exact ⟨hs.clean.global g ho.global, Heap.find?_tidied List.mem_cons_self _ _⟩
  · refine ⟨hs.clean.pending _ hpending, Heap.find?_tidied ?_ _ _⟩
    rw [hpending]
    exact List.mem_cons_of_mem _ List.mem_cons_self

theorem live_collected (hs : s.Standing reporting) (ho : s.worker.environment.Opened g)
    {id : ObjectId} (hid : id = g.object ∨ s.worker.environment.pending = some (.object id)) :
    (s.worker.environment.collectGarbage g).heap.isLive id = true := by
  obtain ⟨hlive, hsame⟩ := hs.kept ho hid
  rw [Heap.isLive, hsame]
  exact hlive

theorem owns_collected (hs : s.Standing reporting) (ho : s.worker.environment.Opened g)
    (hpending : s.worker.environment.pending = some v) :
    (s.worker.environment.collectGarbage g).heap.owns v = true := by
  cases v with
  | object id => exact hs.live_collected ho (.inr hpending)
  | _ => rfl

theorem sound_made (hs : s.Standing reporting) :
    (s.worker.environment.ensureGlobal s.worker.host).2.1.heap.Sound := by
  obtain ⟨budget, credit, hsolvent⟩ := hs.solvent
  obtain ⟨bare, hbalanced⟩ := (Environment.Solvent.ensureGlobal hsolvent).heap
  exact hbalanced.sound

theorem sound_collected (hs : s.Standing reporting) (ho : s.worker.environment.Opened g) :
    (s.worker.environment.collectGarbage g).heap.Sound := by
  have hsound := hs.sound_made
  rw [Environment.ensureGlobal_eq ho.global] at hsound
  rw [Environment.collectGarbage_eq]
  exact hsound.tidied _ _ _

end Standing

end Session

/-! ## Operations -/

namespace Worker

variable {w u : Worker} {given : List Value} {guard : Guard} {around : Surroundings}

theorem perform_deliver {payload : List UInt8} {data : Option Json}
    (hkind : w.host.kind = .dedicated) (hguard : guard.forbidden = false)
    (hdecode : w.ensureGlobal.decode payload = .ok (data, u)) :
    w.perform given guard around (.deliver payload) =
      let r := u.environment.dispatchMessage u.host (u.oversight guard around) data
      (classify ⟨r.2.1, r.2.2, u.budget, u.reports⟩ r.1 u.host.location .report).map .outcome id := by
  change w.reply ((w.deliver guard around payload).map (·.map .outcome id)) = _
  rw [deliver_eq, if_pos hkind, hguard, hdecode]
  rfl

theorem perform_connect {port : Nat} {host : Host} (hguard : guard.forbidden = false)
    (hconnect : w.host.connect? = some (port, host)) :
    w.perform given guard around .connect =
      let r := w.environment.dispatchConnect host (w.oversight guard around) port
      (classify ⟨r.2.1, r.2.2, w.budget, w.reports⟩ r.1 host.location .report).map .outcome id := by
  have hkind : w.host.kind = .shared := by
    unfold Host.connect? at hconnect
    unfold Host.kind
    cases hrole : w.host.role with
    | shared name ports => rfl
    | dedicated parent =>
        rw [hrole] at hconnect
        exact nomatch hconnect
  change w.reply ((w.connect guard around).map (·.map .outcome id)) = _
  rw [connect_eq, if_pos hkind, hguard, hconnect]
  rfl

theorem environment_classify (w : Worker) (completion : Completion) (origin : String)
    (policy : ErrorPolicy) :
    (w.classify completion origin policy).2.environment = w.environment := by
  cases completion with
  | thrown value line =>
      unfold classify
      dsimp only
      split <;> rfl
  | _ => rfl

theorem ensureGlobal_of_opened {g : GlobalScope} (ho : w.environment.Opened g) :
    w.ensureGlobal = w := by
  unfold Worker.ensureGlobal
  rw [Environment.ensureGlobal_eq ho.global]

theorem decode_ok {payload : List UInt8} {data : Json} (hdata : Json.ofBytes payload = .ok data) :
    w.decode payload = .ok (some data, w) := by
  unfold decode
  rw [hdata]

theorem decode_fault {payload : List UInt8} {fault : Json.Fault}
    (hfault : Json.ofBytes payload = .error fault) (hinit : w.environment.isInitialized = true)
    (hsound : w.environment.heap.Sound) :
    let made := w.environment.heap.allocateHostError .dataClone
      ("Failed to deserialize message: " ++ fault.message)
    w.decode payload = .ok (none,
      { w with environment := { w.environment with heap := made.2, pending := some made.1 } }) := by
  intro made
  have howns : made.2.owns made.1 = true := by
    have hplaced := hsound.place (Heap.errorObject .dataClone
      ("Failed to deserialize message: " ++ fault.message)) (Heap.errorObject .dataClone
      ("Failed to deserialize message: " ++ fault.message)).slots
    exact Heap.isLive_iff.2 ⟨_, hplaced.here⟩
  have hcreate : w.environment.createError .dataClone
      ("Failed to deserialize message: " ++ fault.message) =
        .ok (made.1, { w.environment with heap := made.2 }) := by
    unfold Environment.createError
    rw [hinit]
    rfl
  have hinject : Environment.inject { w.environment with heap := made.2 } made.1 =
      .ok { w.environment with heap := made.2, pending := some made.1 } := by
    have hsame : Environment.isInitialized { w.environment with heap := made.2 } = true := hinit
    unfold Environment.inject
    rw [hsame, howns]
    rfl
  unfold decode
  rw [hfault]
  dsimp only
  rw [hcreate]
  change (Environment.inject { w.environment with heap := made.2 } made.1 >>= _) = _
  rw [hinject]
  rfl

/-- What was pending is so after an operation, or has been thrown in the course of it. -/
def Settled (before : Option Value) (x : Reply × Worker) : Prop :=
  x.2.environment.pending = before ∨
    x.2.environment.pending = none ∧
      ∃ v message line, before = some v ∧ x.1 = .outcome (.thrown v message line)

section Settled

variable {before : Option Value}

theorem settled_classify {r : Completion × Environment × Host} (h : Environment.Spent before r)
    (budget : Option Nat) (reports : Option (Array Report)) (origin : String)
    (policy : ErrorPolicy) :
    Settled before
      ((classify ⟨r.2.1, r.2.2, budget, reports⟩ r.1 origin policy).map .outcome id) := by
  have henvironment :=
    environment_classify ⟨r.2.1, r.2.2, budget, reports⟩ r.1 origin policy
  rcases h with hkept | ⟨hnone, v, line, hbefore, hthrown⟩
  · exact .inl ((congrArg Environment.pending henvironment).trans hkept)
  · refine .inr ⟨(congrArg Environment.pending henvironment).trans hnone, v, r.2.1.describe v, line,
      hbefore, ?_⟩
    rw [hthrown]
    rfl

theorem settled_evaluate (ho : w.environment.Orderly) (source : SourceUnit)
    (policy : ErrorPolicy) :
    Settled w.environment.pending ((w.evaluate guard around source policy).map .outcome id) := by
  rw [evaluate_eq]
  split
  · exact .inl rfl
  · exact settled_classify (ho.spent_run w.host source _) _ _ _ _

theorem settled_deliver (ho : w.environment.Orderly) {payload : List UInt8} {data : Json}
    (hdata : Json.ofBytes payload = .ok data) :
    Settled w.environment.pending
      (w.reply ((w.deliver guard around payload).map (·.map .outcome id))) := by
  rw [deliver_eq]
  split
  · split
    · exact .inl rfl
    · rw [decode_ok hdata]
      have hmade : w.ensureGlobal.environment.Orderly := .inr ⟨_, ho.ensureGlobal w.host⟩
      have hspent := hmade.spent_dispatchMessage w.ensureGlobal.host
        (w.ensureGlobal.oversight guard around) (some data)
      have hpending : w.ensureGlobal.environment.pending = w.environment.pending :=
        w.environment.pending_ensureGlobal w.host
      rw [hpending] at hspent
      exact settled_classify hspent _ _ _ _
  · exact .inl rfl

theorem settled_connect (ho : w.environment.Orderly) :
    Settled w.environment.pending
      (w.reply ((w.connect guard around).map (·.map .outcome id))) := by
  rw [connect_eq]
  split
  · split
    · exact .inl rfl
    · cases w.host.connect? with
      | none => exact .inl rfl
      | some connected =>
          obtain ⟨port, host⟩ := connected
          exact settled_classify (ho.spent_dispatchConnect host _ port) _ _ _ _
  · exact .inl rfl

theorem settled_createError (w : Worker) (kind : ErrorKind) (message : String) :
    Settled w.environment.pending
      (w.reply ((w.createError kind message).map (·.map .created id))) := by
  rw [createError_eq]
  split
  · exact .inl rfl
  · next hcreate =>
    obtain ⟨-, -, rfl⟩ := Environment.createError_ok hcreate
    exact .inl (w.environment.pending_ensureGlobal w.host)

theorem settled_perform (ho : w.environment.Orderly) (op : Operation)
    (hop : op.injects = false) :
    Settled w.environment.pending (w.perform given guard around op) := by
  cases op with
  | evaluate source policy => exact settled_evaluate ho source policy
  | deliver payload =>
      cases hbytes : Json.ofBytes payload with
      | ok data => exact settled_deliver ho hbytes
      | error fault =>
          rw [Operation.injects, hbytes] at hop
          exact nomatch hop
  | connect => exact settled_connect ho
  | createError kind message => exact w.settled_createError kind message
  | inject offer => exact nomatch hop
  | describe offer => exact .inl rfl

end Settled

end Worker

namespace Session

variable {s : Session} {t : Turn} {clock : Nat → Nat} {v : Value} {g : GlobalScope}
  {heap : Heap} {policy : ErrorPolicy} {reporting : Bool} {payload : List UInt8}

/-- A turn that throws a new error for a payload that is no document, and runs no script. -/
structure Rejects (r : Event × Session) (w : Worker) (fault : Json.Fault) (id : ObjectId)
    (heap : Heap) (reported : Bool) : Prop where
  fresh : w.environment.heap.find? id = none
  error : heap.find? id = some (Heap.errorObject .dataClone
    ("Failed to deserialize message: " ++ fault.message))
  elsewhere : ∀ other o, other ≠ id → heap.find? other = some o →
    w.environment.heap.find? other = some o
  throws : Throws r w (.object id) heap w.host.location 1 reported

namespace Standing

theorem evaluate (hs : s.Standing reporting) (ho : s.worker.environment.Opened g)
    (hpending : s.worker.environment.pending = some v) (ht : t.Unhindered) {source : SourceUnit}
    (hop : t.operation = .evaluate source policy) {first : Source.Stmt} {rest : Source.Program}
    (hparse : Source.parse source.text = .ok (first :: rest))
    (hhoist : Heap.hoist g (Source.declared (first :: rest))
      (s.worker.environment.collectGarbage g).heap = .ok () heap) (howns : heap.owns v = true) :
    Throws (s.turn clock t) s.worker v heap source.origin (source.absoluteLine first.line)
      (reporting && policy = .report) := by
  have hrun := ho.run_raises s.worker.host (s.worker.oversight t.guard (t.around clock)) hpending
    ht.begun
    (ht.answer s.worker clock _) hparse hhoist
  refine throws_of clock policy hs.reports howns ?_
  rw [hop]
  change (s.worker.evaluate t.guard (t.around clock) source policy).map Reply.outcome id = _
  rw [Worker.evaluate_eq, ht.allowed, hrun]
  rfl

theorem delivered {u : Worker} (clock : Nat → Nat) (ho : u.environment.Opened g)
    (hpending : u.environment.pending = some v) (ht : t.Unhindered)
    (hop : t.operation = .deliver payload) (hkind : s.worker.host.kind = .dedicated)
    {data : Option Json} (hdecode : s.worker.ensureGlobal.decode payload = .ok (data, u))
    (hreports : u.reports = if reporting then some #[] else none)
    (howns : (u.environment.collectGarbage g).heap.owns v = true) :
    Throws (s.turn clock t) u v (u.environment.collectGarbage g).heap u.host.location 1
      reporting := by
  have hrun := ho.dispatch_raises u.host (u.oversight t.guard (t.around clock)) hpending ht.begun
    (ht.answer u clock _)
    "onmessage" (Environment.messageEvent data)
  have hthrows := throws_of clock .report hreports howns (by
    rw [hop, Worker.perform_deliver hkind ht.allowed hdecode]
    unfold Environment.dispatchMessage
    rw [hrun])
  simpa using hthrows

theorem deliver (hs : s.Standing reporting) (ho : s.worker.environment.Opened g)
    (hpending : s.worker.environment.pending = some v) (ht : t.Unhindered)
    (hop : t.operation = .deliver payload) (hkind : s.worker.host.kind = .dedicated) {data : Json}
    (hdata : Json.ofBytes payload = .ok data) :
    Throws (s.turn clock t) s.worker v (s.worker.environment.collectGarbage g).heap
      s.worker.host.location 1 reporting := by
  have hdecode : s.worker.ensureGlobal.decode payload = .ok (some data, s.worker) := by
    rw [Worker.ensureGlobal_of_opened ho]
    exact Worker.decode_ok hdata
  exact delivered clock ho hpending ht hop hkind hdecode hs.reports (hs.owns_collected ho hpending)

theorem connect (hs : s.Standing reporting) (ho : s.worker.environment.Opened g)
    (hpending : s.worker.environment.pending = some v) (ht : t.Unhindered)
    (hop : t.operation = .connect) {port : Nat} {host : Host}
    (hconnect : s.worker.host.connect? = some (port, host)) :
    Throws (s.turn clock t) { s.worker with host := host } v
      (s.worker.environment.collectGarbage g).heap host.location 1 reporting := by
  have hrun := ho.dispatch_raises host (s.worker.oversight t.guard (t.around clock)) hpending ht.begun
    (ht.answer s.worker clock _) "onconnect" (Environment.connectEvent port)
  have hthrows := throws_of (w := { s.worker with host := host }) clock .report
    hs.reports (hs.owns_collected ho hpending) (by
      rw [hop, Worker.perform_connect ht.allowed hconnect]
      unfold Environment.dispatchConnect
      rw [hrun])
  simpa using hthrows

/-- The error for a payload that is no document goes the way of every other pending exception. -/
theorem fault (hs : s.Standing reporting) (ht : t.Unhindered)
    (hop : t.operation = .deliver payload) (hkind : s.worker.host.kind = .dedicated)
    {fault : Json.Fault} (hfault : Json.ofBytes payload = .error fault) :
    ∃ id heap, Rejects (s.turn clock t) s.worker.ensureGlobal fault id heap reporting := by
  have hreports : s.worker.ensureGlobal.reports = if reporting then some #[] else none := hs.reports
  have hsound : s.worker.ensureGlobal.environment.heap.Sound := hs.sound_made
  obtain ⟨g, ho⟩ : ∃ g, s.worker.ensureGlobal.environment.Opened g :=
    ⟨_, hs.orderly.ensureGlobal s.worker.host⟩
  have hdecode := Worker.decode_fault hfault (congrArg Option.isSome ho.global) hsound
  have hplaced := hsound.place (Heap.errorObject .dataClone
    ("Failed to deserialize message: " ++ fault.message)) (Heap.errorObject .dataClone
      ("Failed to deserialize message: " ++ fault.message)).slots
  generalize hw : s.worker.ensureGlobal = w at hreports ho hdecode hplaced ⊢
  let error := w.environment.heap.allocateHostError .dataClone
    ("Failed to deserialize message: " ++ fault.message)
  let e := { w.environment with heap := error.2, pending := some error.1 }
  have hcollected : (e.collectGarbage g).heap =
      error.2.tidied e.scopes [.object g.object, error.1] [g.scope] := by
    rw [Environment.collectGarbage_eq]
    rfl
  have hkept := Heap.find?_tidied (h := error.2)
    (List.mem_cons_of_mem (.object g.object) (List.mem_singleton_self error.1)) e.scopes [g.scope]
  have hhere := hkept.trans hplaced.here
  rw [← hcollected] at hhere
  refine ⟨_, _, hplaced.stale, hhere, fun other o hne hother => ?_, ?_⟩
  · rw [hcollected] at hother
    exact (hplaced.elsewhere other hne).symm.trans (Heap.find?_of_tidied hother)
  · have hdecoded : s.worker.ensureGlobal.decode payload =
        .ok (none, { w with environment := e }) :=
      (congrArg (fun u => u.decode payload) hw).trans hdecode
    have hthrows := delivered (s := s) (u := { w with environment := e }) clock
      ⟨ho.global, ho.kind⟩ rfl ht hop hkind hdecoded hreports (Heap.isLive_iff.2 ⟨_, hhere⟩)
    exact ⟨hthrows.reply, hthrows.reports, hthrows.host, hthrows.worker⟩

/-- Only injecting makes an exception pending, and only throwing it ends that. -/
theorem settled (hs : s.Standing reporting) (clock : Nat → Nat) (t : Turn)
    (hop : t.operation.injects = false) :
    Worker.Settled s.worker.environment.pending
      ((s.turn clock t).1.reply, (s.turn clock t).2.worker) :=
  Worker.settled_perform hs.orderly t.operation hop

theorem undeclared (clock : Nat → Nat) (ho : s.worker.environment.Opened g) (ht : t.Unhindered)
    {source : SourceUnit} (hop : t.operation = .evaluate source policy) {body : Source.Program}
    (hparse : Source.parse source.text = .ok body) {reason : TerminationReason}
    (hhoist : Heap.hoist g (Source.declared body) (s.worker.environment.collectGarbage g).heap =
      .error reason heap) :
    (s.turn clock t).1.reply = .outcome (.terminated reason) ∧
      (s.turn clock t).2.worker.environment.pending = s.worker.environment.pending := by
  have hrun := ho.run_undeclared s.worker.host (s.worker.oversight t.guard (t.around clock)) hparse
    hhoist
  have hperform : s.worker.perform s.given t.guard (t.around clock) t.operation =
      (.outcome (.terminated reason),
        { s.worker with environment := { s.worker.environment with heap := heap } }) := by
    rw [hop]
    change (s.worker.evaluate t.guard (t.around clock) source policy).map Reply.outcome id = _
    rw [Worker.evaluate_eq, ht.allowed, hrun]
    rfl
  unfold turn
  rw [hperform]
  exact ⟨rfl, rfl⟩

theorem unread (ho : s.worker.environment.Opened g) {source : SourceUnit}
    (hop : t.operation = .evaluate source policy)
    (hparse : ∀ first rest, Source.parse source.text ≠ .ok (first :: rest)) :
    (s.turn clock t).2.worker.environment.pending = s.worker.environment.pending := by
  change (s.worker.perform s.given t.guard (t.around clock) t.operation).2.environment.pending = _
  rw [hop]
  change (s.worker.evaluate t.guard (t.around clock) source policy).2.environment.pending = _
  rw [Worker.evaluate_eq]
  split
  · rfl
  · exact (congrArg Environment.pending (Worker.environment_classify _ _ _ _)).trans
      (ho.pending_unread hparse)

end Standing

/--
What is to become of a pending exception: it outlives collections and whatever is no program, and
the first run after that throws it before its first statement, whatever statement that is.
-/
structure Raises (s : Session) (reporting : Bool) (v : Value) (g : GlobalScope) : Prop where
  owned : s.worker.environment.heap.owns v = true
  kept : ∀ id, id = g.object ∨ v = .object id →
    (s.worker.environment.collectGarbage g).heap.find? id = s.worker.environment.heap.find? id
  evaluate : ∀ clock (t : Turn) source policy first rest, t.Unhindered →
    t.operation = .evaluate source policy → Source.parse source.text = .ok (first :: rest) →
    match Heap.hoist g (Source.declared (first :: rest))
      (s.worker.environment.collectGarbage g).heap with
    | .ok _ heap =>
        (∃ ids, (s.worker.environment.collectGarbage g).heap.Hoisted g
          (Source.declared (first :: rest)) ids heap) ∧
        Throws (s.turn clock t) s.worker v heap source.origin (source.absoluteLine first.line)
          (reporting && policy = .report)
    | .error reason _ =>
        reason = .memoryLimit ∧ (s.turn clock t).1.reply = .outcome (.terminated reason) ∧
          (s.turn clock t).2.worker.environment.pending = some v
  unread : ∀ clock (t : Turn) source policy, t.operation = .evaluate source policy →
    (∀ first rest, Source.parse source.text ≠ .ok (first :: rest)) →
    (s.turn clock t).2.worker.environment.pending = some v
  deliver : ∀ clock (t : Turn) payload data, t.Unhindered → t.operation = .deliver payload →
    s.worker.host.kind = .dedicated → Json.ofBytes payload = .ok data →
    Throws (s.turn clock t) s.worker v (s.worker.environment.collectGarbage g).heap
      s.worker.host.location 1 reporting
  connect : ∀ clock (t : Turn) port host, t.Unhindered → t.operation = .connect →
    s.worker.host.connect? = some (port, host) →
    Throws (s.turn clock t) { s.worker with host := host } v
      (s.worker.environment.collectGarbage g).heap host.location 1 reporting

theorem Standing.raises (hs : s.Standing reporting) (ho : s.worker.environment.Opened g)
    (hpending : s.worker.environment.pending = some v) : s.Raises reporting v g where
  owned := hs.clean.pending v hpending
  kept id hid := (hs.kept ho (hid.imp_right fun heq => hpending.trans (congrArg some heq))).2
  evaluate clock t source policy first rest ht hop hparse := by
    rcases (hs.sound_collected ho).hoist_cases (hs.live_collected ho (.inl rfl))
      (Source.declared (first :: rest)) with ⟨heap, hno⟩ | ⟨ids, heap, hok, hhoisted⟩
    · have hend := undeclared clock ho ht hop hparse hno
      rw [hno]
      exact ⟨rfl, hend.1, hend.2.trans hpending⟩
    · have howns : heap.owns v = true := by
        have hcollected := hs.owns_collected ho hpending
        cases v with
        | object id => exact hhoisted.isLive hcollected
        | _ => rfl
      rw [hok]
      exact ⟨⟨ids, hhoisted⟩, hs.evaluate ho hpending ht hop hparse hok howns⟩
  unread clock t source policy hop hparse := (Standing.unread ho hop hparse).trans hpending
  deliver clock t payload data ht hop hkind hdata := hs.deliver ho hpending ht hop hkind hdata
  connect clock t port host ht hop hconnect := hs.connect ho hpending ht hop hconnect

/--
In every session an exception that is pending is thrown by the first run to come to a safe point,
before anything of the script but the declarations of its functions, and it is not pending any
more. Nothing makes another one pending but the host, by injecting it or by a message whose payload
is no document; that one is thrown in the same way.
-/
theorem injected_raised_once (arena : Nat) (host : Host) (limits : Limits) (reporting : Bool)
    (clocks : Nat → Nat → Nat) (turns : List Turn) :
    let s := (start arena host limits reporting).after clocks turns
    (∀ v, s.worker.environment.pending = some v →
      ∃ g, s.worker.environment.global = some g ∧ s.Raises reporting v g) ∧
    (∀ clock (t : Turn) payload fault, t.Unhindered → t.operation = .deliver payload →
      s.worker.host.kind = .dedicated → Json.ofBytes payload = .error fault →
      ∃ id heap, Rejects (s.turn clock t) s.worker.ensureGlobal fault id heap reporting) ∧
    ∀ clock (t : Turn), t.operation.injects = false →
      Worker.Settled s.worker.environment.pending
        ((s.turn clock t).1.reply, (s.turn clock t).2.worker) := by
  intro s
  have hs : s.Standing reporting := standing_after arena host limits reporting clocks turns
  clear_value s
  refine ⟨fun v hpending => ?_, fun clock t payload fault ht hop hkind hfault => ?_,
    fun clock t hop => hs.settled clock t hop⟩
  · obtain ⟨g, ho⟩ := hs.opened hpending
    exact ⟨g, ho.global, hs.raises ho hpending⟩
  · exact hs.fault ht hop hkind hfault

/-- A statement that would catch the exception comes too late for it. -/
example :
    let host := Host.new "worker" [] true (.dedicated .new)
    let source := SourceUnit.anonymous "try \x7b 'body'; \x7d catch (e) \x7b 'caught'; \x7d"
    let turn (op : Operation) : Turn := ⟨.new, fun _ _ => false, 100, op⟩
    let s := (start 0 host { wallClockMs := 0 } true).after (fun _ _ => 0)
      [turn (.createError .error "stop"), turn (.inject (.given 0))]
    (s.events (fun _ _ => 0) [turn (.evaluate source .report), turn (.evaluate source .report)]).map
        Event.reply =
      [.outcome (.thrown (s.given[0]?.getD .undefined) "Error: stop" 1),
        .outcome (.value (.string "body"))] := by
  decide +kernel

end Session

end ScriptHost

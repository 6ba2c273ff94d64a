import ScriptHost.Proofs.Coupling.Law
import ScriptHost.Proofs.Session.Environment
import ScriptHost.Proofs.Session.Lending
import ScriptHost.Proofs.Session.Operations

/-!
Sessions against their budgets. Whatever is asked of a worker, the objects of its scripts take no
more than was charged for them, and what the host has lent.
-/

namespace ScriptHost

theorem Heap.solvent_law (l : Ledger) : Heap.Law fun h => h.Solvent l where
  allocate h o hs := by
    rcases hs.allocate o with ⟨id, h', hok, hs'⟩ | hno
    · rw [left, hok]
      exact hs'
    · rw [left, hno]
      exact hs
  allocateHost h o hlent hs := by
    have hs' := hs.allocateHost o
    rw [hlent] at hs'
    exact hs'
  write h w id hs := by
    rcases hs.step w id with ⟨h', hok, hs'⟩ | hno
    · rw [left, hok]
      exact hs'
    · rw [left, hno]
      exact hs

/-! ## Environments -/

variable {budget credit : Nat} {host : Host}

namespace Environment

variable {e : Environment} {g : GlobalScope}

/-- An environment with a global scope, and what was lent to its scripts. -/
structure Ready (e : Environment) (g : GlobalScope) (budget credit : Nat) : Prop where
  global : e.global = some g
  heap : e.heap.Solvent ⟨budget, some g.object, credit⟩

/-- The texts of the host are lent once the global scope is made. -/
inductive Solvent (e : Environment) (host : Host) (budget credit : Nat) : Prop
  | unmade : e.global = none → e.heap.Solvent ⟨budget, none, 0⟩ → host.lent ≤ credit →
      Solvent e host budget credit
  | made {g : GlobalScope} : e.Ready g budget credit → Solvent e host budget credit

theorem Ready.credit_mono (hr : e.Ready g budget credit) {credit' : Nat}
    (hcredit : credit ≤ credit') : e.Ready g budget credit' :=
  ⟨hr.global, hr.heap.credit_mono hcredit⟩

theorem Solvent.credit_mono (hs : e.Solvent host budget credit) {credit' : Nat}
    (hcredit : credit ≤ credit') : e.Solvent host budget credit' := by
  cases hs with
  | unmade hglobal hheap hlent => exact .unmade hglobal hheap (Nat.le_trans hlent hcredit)
  | made hr => exact .made (hr.credit_mono hcredit)

theorem Solvent.of_lent {host' : Host} (hlent : host'.lent = host.lent)
    (hs : e.Solvent host budget credit) : e.Solvent host' budget credit := by
  cases hs with
  | unmade hglobal hheap hle => exact .unmade hglobal hheap (hlent ▸ hle)
  | made hr => exact .made hr

theorem Solvent.ensureGlobal (hs : e.Solvent host budget credit) :
    (e.ensureGlobal host).2.1.Ready (e.ensureGlobal host).1 budget credit := by
  refine ⟨e.global_ensureGlobal host, ?_⟩
  unfold Environment.ensureGlobal
  cases hs with
  | unmade hglobal hheap hlent =>
      have hmade := GlobalScope.build_solvent hheap e.scopes host
      generalize GlobalScope.build e.heap e.scopes host = made at hmade ⊢
      rw [hglobal]
      exact hmade.credit_mono (by dsimp only; omega)
  | @made g hr =>
      rw [hr.global]
      exact hr.heap

theorem Ready.collectGarbage (hr : e.Ready g budget credit) :
    (e.collectGarbage g).Ready g budget credit := by
  unfold Environment.collectGarbage
  split
  · refine ⟨hr.global, hr.heap.collect _ _ fun id hid => ?_⟩
    obtain rfl := Option.some.inj hid
    exact List.mem_cons_self
  · exact hr

theorem Ready.perform (hr : e.Ready g budget credit) (host : Host) (s : Setting) (task : Task) :
    (e.execute host fun m => task.perform m s).2.1.Ready g budget credit :=
  ⟨hr.global, (Heap.solvent_law _).perform (m := .start e.heap e.scopes e.pending host) hr.heap s
    task⟩

theorem Ready.parseFailure (hr : e.Ready g budget credit) (fault : Source.Fault) (line : Nat) :
    (e.parseFailure fault line).2.Ready g budget credit := by
  have hheap : (Heap.left (Heap.allocateError .grammar fault.message) e.heap).Solvent
      ⟨budget, some g.object, credit⟩ := by
    rw [Heap.allocateError, Heap.left_map]
    exact (Heap.solvent_law _).allocate e.heap _ hr.heap
  unfold Environment.parseFailure
  unfold Heap.left at hheap
  cases h : Heap.allocateError .grammar fault.message e.heap with
  | ok value heap =>
      rw [h] at hheap
      exact ⟨hr.global, hheap⟩
  | error reason heap =>
      rw [h] at hheap
      exact ⟨hr.global, hheap⟩

theorem Solvent.run (hs : e.Solvent host budget credit) (source : SourceUnit)
    (oversight : Oversight) :
    (e.run host source oversight).2.1.Ready (e.ensureGlobal host).1 budget credit := by
  have hr := hs.ensureGlobal.collectGarbage
  unfold Environment.run
  cases Source.parse source.text with
  | error fault => exact hr.parseFailure fault _
  | ok program => exact hr.perform _ _ (.program program)

theorem Solvent.dispatchMessage (hs : e.Solvent host budget credit) (oversight : Oversight)
    (data : Option Json) :
    (e.dispatchMessage host oversight data).2.1.Ready (e.ensureGlobal host).1 budget credit :=
  hs.ensureGlobal.collectGarbage.perform _ _ (.message "onmessage" data)

theorem Solvent.dispatchConnect (hs : e.Solvent host budget credit) (oversight : Oversight)
    (port : Nat) :
    (e.dispatchConnect host oversight port).2.1.Ready (e.ensureGlobal host).1 budget credit :=
  hs.ensureGlobal.collectGarbage.perform _ _ (.connect "onconnect" port)

theorem Ready.createError (hr : e.Ready g budget credit) {kind : ErrorKind} {message : String}
    {value : Value} {e' : Environment} (h : e.createError kind message = .ok (value, e')) :
    e'.Ready g budget (credit + (Heap.errorObject kind message).lent) := by
  obtain ⟨-, -, rfl⟩ := createError_ok h
  exact ⟨hr.global, hr.heap.allocateHost _⟩

theorem Ready.withPending (hr : e.Ready g budget credit) (value : Option Value) :
    { e with pending := value }.Ready g budget credit :=
  ⟨hr.global, hr.heap⟩

theorem Solvent.withPending (hs : e.Solvent host budget credit) (value : Option Value) :
    { e with pending := value }.Solvent host budget credit := by
  cases hs with
  | unmade hglobal hheap hlent => exact .unmade hglobal hheap hlent
  | made hr => exact .made (hr.withPending value)

end Environment

/-! ## Workers -/

namespace Worker

variable {w : Worker} {given : List Value} {guard : Guard} {around : Surroundings}

def Solvent (w : Worker) (budget credit : Nat) : Prop :=
  w.environment.Solvent w.host budget credit

theorem solvent_classify {g : GlobalScope} (hr : w.environment.Ready g budget credit)
    (completion : Completion) (origin : String) (policy : ErrorPolicy) :
    (w.classify completion origin policy).2.Solvent budget credit := by
  cases completion with
  | thrown value line =>
      unfold classify
      dsimp only
      split <;> exact .made hr
  | _ => exact .made hr

theorem Solvent.reply (hs : w.Solvent budget credit) {α : Type}
    {x : Except UsageError (α × Worker)} (f : α → Reply)
    (h : ∀ a v, x = .ok (a, v) → v.Solvent budget credit) :
    (w.reply (x.map (·.map f id))).2.Solvent budget credit := by
  cases x with
  | error => exact hs
  | ok result => exact h result.1 result.2 rfl

theorem Solvent.ensureGlobal (hs : w.Solvent budget credit) :
    ∃ g, w.ensureGlobal.environment.Ready g budget credit := by
  have hr := Environment.Solvent.ensureGlobal hs
  unfold Worker.ensureGlobal
  generalize w.environment.ensureGlobal w.host = made at hr ⊢
  exact ⟨made.1, hr⟩

theorem ready_decode {g : GlobalScope} (hr : w.environment.Ready g budget credit)
    {payload : List UInt8} {data : Option Json} {v : Worker}
    (h : w.decode payload = .ok (data, v)) :
    v.environment.Ready g budget (credit + lentByPayload payload) := by
  rcases decode_cases h with ⟨json, hpayload, -, rfl⟩ |
    ⟨fault, created, environment, hpayload, hcreate, hinject, -, rfl⟩
  · rw [lentByPayload, hpayload]
    exact hr
  · rw [lentByPayload, hpayload]
    dsimp only
    rw [(Environment.inject_ok hinject).2.2]
    exact (hr.createError hcreate).withPending _

theorem Solvent.evaluate (hs : w.Solvent budget credit) (source : SourceUnit)
    (policy : ErrorPolicy) :
    (w.evaluate guard around source policy).2.Solvent budget credit := by
  rw [evaluate_eq]
  split
  · exact hs
  · exact solvent_classify (hs.run source _) _ _ _

theorem Solvent.deliver (hs : w.Solvent budget credit) {payload : List UInt8} {o : Outcome}
    {v : Worker} (h : w.deliver guard around payload = .ok (o, v)) :
    v.Solvent budget (credit + lentByPayload payload) := by
  rw [deliver_eq] at h
  split at h
  · split at h
    · obtain ⟨-, rfl⟩ := Prod.mk.inj (Except.ok.inj h)
      exact Environment.Solvent.credit_mono hs (Nat.le_add_right _ _)
    · split at h
      · exact nomatch h
      · next data u hu =>
        obtain ⟨g, hr⟩ := hs.ensureGlobal
        have hs' : u.Solvent budget (credit + lentByPayload payload) := .made (ready_decode hr hu)
        rw [← show _ = v from congrArg Prod.snd (Except.ok.inj h)]
        exact solvent_classify (hs'.dispatchMessage _ data) _ _ _
  · exact nomatch h

theorem Solvent.connect (hs : w.Solvent budget credit) {o : Outcome} {v : Worker}
    (h : w.connect guard around = .ok (o, v)) : v.Solvent budget credit := by
  rw [connect_eq] at h
  split at h
  · split at h
    · obtain ⟨-, rfl⟩ := Prod.mk.inj (Except.ok.inj h)
      exact hs
    · split at h
      · obtain ⟨-, rfl⟩ := Prod.mk.inj (Except.ok.inj h)
        exact hs
      · next port host hconnect =>
        have hs' : w.environment.Solvent host budget credit :=
          Environment.Solvent.of_lent (Host.lent_connect hconnect) hs
        rw [← show _ = v from congrArg Prod.snd (Except.ok.inj h)]
        exact solvent_classify (hs'.dispatchConnect _ port) _ _ _
  · exact nomatch h

theorem Solvent.createError (hs : w.Solvent budget credit) {kind : ErrorKind} {message : String}
    {error : Value} {v : Worker} (h : w.createError kind message = .ok (error, v)) :
    v.Solvent budget (credit + (Heap.errorObject kind message).lent) := by
  obtain ⟨g, hr⟩ := hs.ensureGlobal
  rw [createError_eq] at h
  split at h
  · exact nomatch h
  · next hcreate =>
    obtain ⟨-, rfl⟩ := Prod.mk.inj (Except.ok.inj h)
    exact .made (hr.createError hcreate)

theorem Solvent.perform (hs : w.Solvent budget credit) (op : Operation) :
    (w.perform given guard around op).2.Solvent budget (credit + op.lent) := by
  cases op with
  | evaluate source policy => exact hs.evaluate source policy
  | deliver payload =>
      exact Solvent.reply (Environment.Solvent.credit_mono hs (Nat.le_add_right _ _)) _
        fun _ _ => hs.deliver
  | connect => exact hs.reply _ fun _ _ => hs.connect
  | createError kind message =>
      exact Solvent.reply (Environment.Solvent.credit_mono hs (Nat.le_add_right _ _)) _
        fun _ _ => hs.createError
  | inject offer =>
      change (w.reply ((w.inject (offer.resolve given)).map (Reply.injected, ·))).2.Solvent _ _
      rw [inject_eq]
      cases hinject : w.environment.inject (offer.resolve given) with
      | error => exact hs
      | ok environment =>
          rw [(Environment.inject_ok hinject).2.2]
          exact Environment.Solvent.withPending hs _
  | describe offer => exact hs

end Worker

/-! ## Sessions -/

namespace Session

theorem solvent_start (arena : Nat) (host : Host) (limits : Limits) (reporting : Bool) :
    (start arena host limits reporting).worker.Solvent limits.heapSlots host.lent :=
  .unmade rfl ⟨_, .empty arena limits⟩ (Nat.le_refl _)

theorem solvent_after {s : Session} (hs : s.worker.Solvent budget credit)
    (clocks : Nat → Nat → Nat) (turns : List Turn) :
    (s.after clocks turns).worker.Solvent budget
      (credit + (turns.map fun t => t.operation.lent).sum) := by
  induction turns generalizing s clocks credit with
  | nil => exact hs
  | cons t turns ih =>
      have hturn : (s.turn (clocks 0) t).2.worker.Solvent budget (credit + t.operation.lent) :=
        hs.perform t.operation
      rw [List.map_cons, List.sum_cons, ← Nat.add_assoc]
      exact ih hturn _

/--
The objects of scripts take no more slots than are charged, and what the host has lent: the text
that it told the scripts about themselves and put into the errors that it made for them, beyond one
slot for each value. What is charged stays within the budget, if there is one.
-/
theorem memory_bounded (arena : Nat) (host : Host) (limits : Limits) (reporting : Bool)
    (clocks : Nat → Nat → Nat) (turns : List Turn) :
    let h := ((start arena host limits reporting).after clocks turns).worker.environment.heap
    h.scriptSlots ≤ h.used + (host.lent + (turns.map fun t => t.operation.lent).sum) ∧
      (limits.heapSlots ≠ 0 → h.used ≤ limits.heapSlots) := by
  intro h
  have hs := solvent_after (solvent_start arena host limits reporting) clocks turns
  cases hs with
  | unmade _ hheap hlent =>
      have hbounded := hheap.bounded
      exact ⟨Nat.le_trans hbounded.1 (Nat.add_le_add_left (Nat.zero_le _) _), hbounded.2⟩
  | made hr => exact hr.heap.bounded

/-- The second slot of a location of 64 bytes pays for an object that the budget does not allow. -/
theorem lent_text_spent :
    let host := Host.new (String.ofList (List.replicate 64 'x')) [] true (.dedicated .new)
    let source := "let a = \x7b\x7d; location = ''; let b = \x7b\x7d; a !== b;"
    let turn : Turn := ⟨.new, fun _ _ => false, 100, .evaluate (.anonymous source) .propagate⟩
    let s := (start 0 host { heapSlots := 1, wallClockMs := 0 } true).after (fun _ _ => 0) [turn]
    let h := s.worker.environment.heap
    host.lent = 1 ∧ h.used = 1 ∧ h.scriptSlots = 2 ∧ s.given = [.bool true] := by
  decide +kernel

end Session

end ScriptHost

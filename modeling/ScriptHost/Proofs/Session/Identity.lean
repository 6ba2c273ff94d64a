import ScriptHost.Proofs.Session.Injection

/-!
The global scope of a session. The first operation that needs one builds it, and then it stays, with
its object, whatever the scripts do to the properties of that object.
-/

namespace ScriptHost

/-! ## Wrappers -/

namespace Host

theorem wrappers_postToPort (h : Host) (port : Nat) (message : Json) :
    (h.postToPort port message).wrappers = h.wrappers := by
  obtain ⟨location, env, log, closing, wrappers, role⟩ := h
  cases role <;> rfl

theorem wrappers_connect? {h host : Host} {port : Nat} (hconnect : h.connect? = some (port, host)) :
    host.wrappers = h.wrappers := by
  obtain ⟨location, env, log, closing, wrappers, role⟩ := h
  cases role with
  | dedicated parent => simp [connect?] at hconnect
  | shared name ports =>
      simp only [connect?, Option.some.injEq, Prod.mk.injEq] at hconnect
      rw [← hconnect.2]

end Host

namespace Environment

variable {e e' : Environment} {g : GlobalScope} {host host' : Host} {ps : List Posting}

theorem wrappers_law (n : Nat) : Machine.Law fun m => m.host.wrappers = n where
  books _ _ := id
  nesting _ _ := id
  polls _ _ := id
  halt _ _ := id
  spend _ := id
  allocate _ _ _ := id
  write _ _ _ := id
  openChild _ _ _ := id
  bind _ _ _ _ := id
  host m _ hf hm := (hf.wrappers m.host).trans hm
  portCall s m port function args _ hm := by
    rw [Run.portCall_eq]
    split
    · exact (m.host.wrappers_postToPort port _).trans hm
    · next error _ =>
      have hhost := (Run.left_complain (.uncloneable error) s (m.post port function args)
        (α := Value)).2.2.1
      rw [hhost]
      exact hm

/-! ## Founded environments -/

structure Founded (e : Environment) (host : Host) (g : GlobalScope) : Prop where
  opened : e.Opened g
  wrappers : host.wrappers = 1

/-- There is one wrapper for a global scope, and none before there is one. -/
structure Founding (e : Environment) (host : Host) : Prop where
  orderly : e.Orderly
  wrappers : host.wrappers = if e.isInitialized then 1 else 0

theorem Founded.ensureGlobal (hf : e.Founded host g) : e.ensureGlobal host = (g, e, host) :=
  ensureGlobal_eq hf.opened.global host

theorem Founded.perform (hf : e.Founded host g) (s : Setting) (task : Task) :
    let r := e.execute host fun m => task.perform m s
    r.2.1.Founded r.2.2 g := by
  have hwrappers := (wrappers_law 1).perform (m := .start e.heap e.scopes e.pending host)
    hf.wrappers s task fun _ _ _ _ hn _ => hn
  exact ⟨hf.opened.perform host s task, hwrappers⟩

theorem Founded.collectGarbage (hf : e.Founded host g) : (e.collectGarbage g).Founded host g :=
  ⟨hf.opened.collectGarbage, hf.wrappers⟩

namespace Founding

theorem ensured (hf : e.Founding host) :
    let r := e.ensureGlobal host
    r.2.1.Founded r.2.2 r.1 := by
  have hwrappers := hf.wrappers
  refine ⟨hf.orderly.ensureGlobal host, ?_⟩
  unfold Environment.ensureGlobal
  generalize GlobalScope.build e.heap e.scopes host = made
  cases hglobal : e.global with
  | none => simp [isInitialized, hglobal, Host.attachWrapper] at hwrappers ⊢; omega
  | some g => simpa [isInitialized, hglobal] using hwrappers

theorem run (hf : e.Founding host) (source : SourceUnit) (oversight : Oversight) :
    let r := e.run host source oversight
    r.2.1.Founded r.2.2 (e.ensureGlobal host).1 := by
  have hready := hf.ensured.collectGarbage
  unfold Environment.run
  cases Source.parse source.text with
  | error fault => exact ⟨hready.opened.parseFailure fault _, hready.wrappers⟩
  | ok program => exact hready.perform _ (.program program)

theorem dispatchMessage (hf : e.Founding host) (oversight : Oversight) (data : Option Json) :
    let r := e.dispatchMessage host oversight data
    r.2.1.Founded r.2.2 (e.ensureGlobal host).1 :=
  hf.ensured.collectGarbage.perform _ (.message "onmessage" data)

theorem dispatchConnect (hf : e.Founding host) (oversight : Oversight) (port : Nat) :
    let r := e.dispatchConnect host oversight port
    r.2.1.Founded r.2.2 (e.ensureGlobal host).1 :=
  hf.ensured.collectGarbage.perform _ (.connect "onconnect" port)

theorem connected {port : Nat} (hf : e.Founding host)
    (hconnect : host.connect? = some (port, host')) : e.Founding host' :=
  ⟨hf.orderly, (Host.wrappers_connect? hconnect).trans hf.wrappers⟩

end Founding

theorem Founded.founding (hf : e.Founded host g) : e.Founding host := by
  have hinit : e.isInitialized = true := congrArg Option.isSome hf.opened.global
  exact ⟨.inr ⟨g, hf.opened⟩, by rw [hinit]; exact hf.wrappers⟩

theorem Founded.stage (hf : e.Founded host g) (h : Stage e host ps e' host') :
    e'.Founded host' g := by
  cases h with
  | ensured => rw [hf.ensureGlobal]; exact hf
  | created hcreate =>
      obtain ⟨-, -, rfl⟩ := createError_ok hcreate
      exact ⟨⟨hf.opened.global, hf.opened.kind⟩, hf.wrappers⟩
  | injected hinject =>
      obtain ⟨-, -, rfl⟩ := inject_ok hinject
      exact ⟨⟨hf.opened.global, hf.opened.kind⟩, hf.wrappers⟩
  | ran source oversight =>
      have hran := hf.founding.run source oversight
      rwa [hf.ensureGlobal] at hran
  | messaged oversight data =>
      have hran := hf.founding.dispatchMessage oversight data
      rwa [hf.ensureGlobal] at hran
  | @connected port host' oversight hconnect =>
      have hran := (hf.founding.connected hconnect).dispatchConnect oversight port
      rwa [ensureGlobal_eq hf.opened.global] at hran

end Environment

/-! ## Operations -/

/-- Whether the turn needs a global scope: this kind of worker has its operation, and may run it. -/
def Turn.founds (kind : WorkerKind) (t : Turn) : Bool :=
  match t.operation with
  | .evaluate .. => !t.guard.forbidden
  | .deliver _ => kind = .dedicated && !t.guard.forbidden
  | .connect => kind = .shared && !t.guard.forbidden
  | .createError .. => true
  | .inject _ => false
  | .describe _ => false

namespace Worker

variable {w : Worker}

theorem host_classify (w : Worker) (completion : Completion) (origin : String)
    (policy : ErrorPolicy) : (w.classify completion origin policy).2.host = w.host := by
  cases completion with
  | thrown value line =>
      unfold classify
      dsimp only
      split <;> rfl
  | _ => rfl

theorem decode_isOk (hinit : w.environment.isInitialized = true)
    (hsound : w.environment.heap.Sound) (payload : List UInt8) :
    ∃ decoded, w.decode payload = .ok decoded := by
  cases hbytes : Json.ofBytes payload with
  | ok data => exact ⟨_, decode_ok hbytes⟩
  | error fault => exact ⟨_, decode_fault hbytes hinit hsound⟩

def Founded (w : Worker) (g : GlobalScope) : Prop :=
  w.environment.Founded w.host g

theorem founded_classify {r : Completion × Environment × Host} {g : GlobalScope}
    (h : r.2.1.Founded r.2.2 g) (budget : Option Nat) (reports : Option (Array Report))
    (origin : String) (policy : ErrorPolicy) :
    (classify ⟨r.2.1, r.2.2, budget, reports⟩ r.1 origin policy).2.Founded g := by
  unfold Founded
  rw [environment_classify, host_classify]
  exact h

theorem Founded.advances {v : Worker} {g : GlobalScope} {ps : List Posting} (hf : w.Founded g)
    (h : w.Advances ps v) : v.Founded g :=
  h.stages.keep (P := fun _ e host => e.Founded host g) (fun hstage hg => hg.stage hstage) [] hf

theorem kind_connect? (hkind : w.host.kind = .shared) : ∃ port host,
    w.host.connect? = some (port, host) := by
  unfold Host.connect?
  unfold Host.kind at hkind
  cases hrole : w.host.role with
  | shared name ports => exact ⟨_, _, rfl⟩
  | dedicated parent =>
      rw [hrole] at hkind
      cases hkind

/-- An operation that needs a global scope finds one or builds it. -/
theorem founded_perform (hf : w.environment.Founding w.host)
    (hsound : w.ensureGlobal.environment.heap.Sound) (given : List Value) (clock : Nat → Nat)
    {t : Turn} (ht : t.founds w.host.kind = true) :
    ∃ g, (w.perform given t.guard (t.around clock) t.operation).2.Founded g := by
  obtain ⟨guard, stopAsked, horizon, operation⟩ := t
  cases operation with
  | evaluate source policy =>
      have hguard : guard.forbidden = false := by simpa [Turn.founds] using ht
      change ∃ g, (w.evaluate guard _ source policy).2.Founded g
      rw [evaluate_eq, hguard]
      exact ⟨_, founded_classify (hf.run source _) _ _ _ _⟩
  | deliver payload =>
      obtain ⟨hkind, hguard⟩ : w.host.kind = .dedicated ∧ guard.forbidden = false := by
        simpa [Turn.founds] using ht
      have hinit : w.ensureGlobal.environment.isInitialized = true :=
        congrArg Option.isSome (w.environment.global_ensureGlobal w.host)
      obtain ⟨⟨data, u⟩, hdecode⟩ := decode_isOk hinit hsound payload
      have hready : u.Founded (w.environment.ensureGlobal w.host).1 :=
        Founded.advances (w := w.ensureGlobal) hf.ensured (advances_decode hdecode)
      have hfounding : u.environment.Founding u.host := hready.founding
      dsimp only
      rw [perform_deliver hkind hguard hdecode]
      exact ⟨_, founded_classify (hfounding.dispatchMessage _ data) _ _ _ _⟩
  | connect =>
      obtain ⟨hkind, hguard⟩ : w.host.kind = .shared ∧ guard.forbidden = false := by
        simpa [Turn.founds] using ht
      obtain ⟨port, host, hconnect⟩ := kind_connect? hkind
      dsimp only
      rw [perform_connect hguard hconnect]
      exact ⟨_, founded_classify ((hf.connected hconnect).dispatchConnect _ port) _ _ _ _⟩
  | createError kind message =>
      have hready : w.ensureGlobal.Founded (w.environment.ensureGlobal w.host).1 := hf.ensured
      obtain ⟨⟨error, environment⟩, hcreate⟩ :
          ∃ created, w.ensureGlobal.environment.createError kind message = .ok created := by
        have hinit : w.ensureGlobal.environment.isInitialized = true :=
          congrArg Option.isSome hready.opened.global
        simp [Environment.createError, hinit]
      change ∃ g, (w.reply ((w.createError kind message).map (·.map .created id))).2.Founded g
      rw [createError_eq, hcreate]
      exact ⟨_, hready.stage (.created hcreate)⟩
  | inject offer => simp [Turn.founds] at ht
  | describe offer => simp [Turn.founds] at ht

theorem perform_unfounded (hnone : w.environment.global = none) (given : List Value)
    (clock : Nat → Nat) {t : Turn} (ht : t.founds w.host.kind = false) :
    (w.perform given t.guard (t.around clock) t.operation).2 = w := by
  obtain ⟨guard, stopAsked, horizon, operation⟩ := t
  cases operation with
  | evaluate source policy =>
      have hguard : guard.forbidden = true := by simpa [Turn.founds] using ht
      change (w.evaluate guard _ source policy).2 = w
      rw [evaluate_eq, if_pos hguard]
  | deliver payload =>
      have hheld : w.host.kind = .dedicated → guard.forbidden = true := by
        simpa [Turn.founds] using ht
      change (w.reply ((w.deliver guard _ payload).map (·.map .outcome id))).2 = w
      rw [deliver_eq]
      split
      · next hkind => rw [if_pos (hheld hkind)]; rfl
      · rfl
  | connect =>
      have hheld : w.host.kind = .shared → guard.forbidden = true := by
        simpa [Turn.founds] using ht
      change (w.reply ((w.connect guard _).map (·.map .outcome id))).2 = w
      rw [connect_eq]
      split
      · next hkind => rw [if_pos (hheld hkind)]; rfl
      · rfl
  | createError kind message => simp [Turn.founds] at ht
  | inject offer =>
      change (w.reply ((w.inject (offer.resolve given)).map (Reply.injected, ·))).2 = w
      simp [inject_eq, Environment.inject, Environment.isInitialized, hnone, Except.map, reply]
  | describe offer => rfl

end Worker

/-! ## Sessions -/

namespace Session

variable {s : Session} {g : GlobalScope} {reporting : Bool}

theorem after_cons (s : Session) (clocks : Nat → Nat → Nat) (t : Turn) (turns : List Turn) :
    s.after clocks (t :: turns) =
      (s.turn (clocks 0) t).2.after (fun n => clocks (n + 1)) turns :=
  rfl

theorem after_append (s : Session) (clocks clocks' : Nat → Nat → Nat) (turns more : List Turn) :
    ∃ joined, (s.after clocks turns).after clocks' more = s.after joined (turns ++ more) := by
  induction turns generalizing s clocks with
  | nil => exact ⟨clocks', rfl⟩
  | cons t turns ih =>
      obtain ⟨joined, hjoined⟩ := ih (s.turn (clocks 0) t).2 fun n => clocks (n + 1)
      refine ⟨fun n => Nat.casesOn n (clocks 0) joined, ?_⟩
      rw [List.cons_append, after_cons, after_cons]
      exact hjoined

theorem founded_after (hf : s.worker.Founded g) (clocks : Nat → Nat → Nat) (turns : List Turn) :
    (s.after clocks turns).worker.Founded g := by
  induction turns generalizing s clocks with
  | nil => exact hf
  | cons t turns ih =>
      rw [after_cons]
      exact ih (hf.advances (s.advances_turn (clocks 0) t)) _

theorem founded_turn (hf : s.worker.environment.Founding s.worker.host)
    (hsound : s.worker.ensureGlobal.environment.heap.Sound) (clock : Nat → Nat) {t : Turn}
    (ht : t.founds s.worker.host.kind = true) : ∃ g, (s.turn clock t).2.worker.Founded g := by
  obtain ⟨g, hg⟩ := Worker.founded_perform hf hsound s.given clock ht
  exact ⟨g, hg⟩

theorem turn_unfounded (hnone : s.worker.environment.global = none) (clock : Nat → Nat) {t : Turn}
    (ht : t.founds s.worker.host.kind = false) :
    (s.turn clock t).2.worker.environment = s.worker.environment ∧
      (s.turn clock t).2.worker.host = s.worker.host := by
  have hturn : (s.turn clock t).2.worker =
      (s.worker.perform s.given t.guard (t.around clock) t.operation).2.takeReports.2 := rfl
  rw [hturn, Worker.perform_unfounded hnone s.given clock ht]
  exact ⟨rfl, rfl⟩

theorem Standing.sound_ensured (hs : s.Standing reporting) :
    s.worker.ensureGlobal.environment.heap.Sound :=
  hs.sound_made

theorem founded_or_untouched (hf : s.worker.environment.Founding s.worker.host)
    (hnone : s.worker.environment.global = none)
    (hsound : s.worker.ensureGlobal.environment.heap.Sound) (clocks : Nat → Nat → Nat)
    (turns : List Turn) :
    let r := (s.after clocks turns).worker
    if turns.any (Turn.founds s.worker.host.kind) then ∃ g, r.Founded g
    else r.environment = s.worker.environment ∧ r.host = s.worker.host := by
  induction turns generalizing s clocks with
  | nil => exact ⟨rfl, rfl⟩
  | cons t turns ih =>
      rw [after_cons, List.any_cons]
      cases ht : t.founds s.worker.host.kind with
      | true =>
          obtain ⟨g, hg⟩ := founded_turn hf hsound (clocks 0) ht
          exact ⟨g, founded_after hg _ turns⟩
      | false =>
          obtain ⟨henvironment, hhost⟩ := turn_unfounded hnone (clocks 0) ht
          have hsame : (s.turn (clocks 0) t).2.worker.ensureGlobal.environment =
              s.worker.ensureGlobal.environment := by
            simp only [Worker.ensureGlobal, henvironment, hhost]
          have hrest := @ih (s.turn (clocks 0) t).2 (by rwa [henvironment, hhost])
            (by rwa [henvironment]) (by rwa [hsame]) fun n => clocks (n + 1)
          rwa [henvironment, hhost] at hrest

structure Grounded (s : Session) (g : GlobalScope) : Prop where
  global : s.worker.environment.global = some g
  scope : s.worker.environment.scopes.kind? g.scope = some .global
  wrappers : s.worker.host.wrappers = 1
  alive : s.worker.environment.heap.isLive g.object = true
  kept : (s.worker.environment.collectGarbage g).heap.find? g.object =
    s.worker.environment.heap.find? g.object

theorem Standing.grounded (hs : s.Standing reporting) (hf : s.worker.Founded g) : s.Grounded g := by
  obtain ⟨halive, hkept⟩ := hs.kept hf.opened (.inl rfl)
  exact ⟨hf.opened.global, hf.opened.kind, hf.wrappers, halive, hkept⟩

/--
A session is as new until the first turn that needs a global scope. From then on it has the same
global scope for good, built once, and no collection frees the object of it.
-/
theorem global_scope_built_once (arena : Nat) (host : Host) (limits : Limits) (reporting : Bool)
    (hfresh : host.wrappers = 0) (clocks : Nat → Nat → Nat) (turns : List Turn) :
    let s := (start arena host limits reporting).after clocks turns
    if turns.any (Turn.founds host.kind) then
      ∃ g, ∀ clocks' more, (s.after clocks' more).Grounded g
    else
      s.worker.environment = .new arena limits ∧ s.worker.environment.isInitialized = false ∧
        s.worker.host = host ∧ s.worker.host.wrappers = 0 := by
  intro s
  have hfounding : (start arena host limits reporting).worker.environment.Founding
      (start arena host limits reporting).worker.host := ⟨.inl ⟨rfl, rfl⟩, hfresh⟩
  have hstart : (start arena host limits reporting).Standing reporting :=
    standing_after arena host limits reporting clocks []
  have hstanding (clocks' : Nat → Nat → Nat) (more : List Turn) :
      (s.after clocks' more).Standing reporting := by
    obtain ⟨joined, hjoined⟩ :=
      after_append (start arena host limits reporting) clocks clocks' turns more
    exact hjoined ▸ standing_after arena host limits reporting joined (turns ++ more)
  have hafter : if turns.any (Turn.founds host.kind) then ∃ g, s.worker.Founded g
      else s.worker.environment = .new arena limits ∧ s.worker.host = host :=
    founded_or_untouched (s := start arena host limits reporting) hfounding rfl
      hstart.sound_ensured clocks turns
  clear_value s
  split at hafter
  · next hany =>
    obtain ⟨g, hg⟩ := hafter
    rw [if_pos hany]
    refine ⟨g, fun clocks' more => ?_⟩
    have hfounded : (s.after clocks' more).worker.Founded g := founded_after hg clocks' more
    exact (hstanding clocks' more).grounded hfounded
  · next hany =>
    obtain ⟨henvironment, hhost⟩ := hafter
    rw [if_neg hany]
    refine ⟨henvironment, ?_, hhost, ?_⟩
    · rw [henvironment]
      rfl
    · rw [hhost]
      exact hfresh

/-- A script drops every name of its global object, and a collection is due before the next run. -/
theorem nameless_global_object_stays :
    let host := Host.new "worker" [] true (.dedicated .new)
    let limits : Limits := { heapSlots := 3, wallClockMs := 0 }
    let turns : List Turn := [.evaluate (.anonymous "self.self = [1, 2];") .report].map
      fun operation => ⟨.new, fun _ _ => false, 100, operation⟩
    let s := (start 0 host limits true).after (fun _ _ => 0) turns
    let h := s.worker.environment.heap
    host.wrappers = 0 ∧
      (h.wantsCollection = true ∧ s.worker.environment.global = some ⟨⟨0, 18, 0⟩, 0⟩ ∧
        (h.object ⟨0, 18, 0⟩).get? "self" = some (.object ⟨0, 19, 0⟩)) ∧
      ∃ g, ∀ clocks more, (s.after clocks more).Grounded g := by
  intro host limits turns s h
  have hgrounded := global_scope_built_once 0 host limits true rfl (fun _ _ => 0) turns
  dsimp only at hgrounded
  rw [if_pos (by decide)] at hgrounded
  exact ⟨rfl, by decide +kernel, hgrounded⟩

end Session

end ScriptHost

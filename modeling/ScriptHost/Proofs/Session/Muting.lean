import ScriptHost.Proofs.Coupling.Muting
import ScriptHost.Proofs.Session.Stages

/-!
Sessions with a worker one of whose ports has no receiver any more. All the rest is as with one.
-/

namespace ScriptHost

namespace Host

variable (port : Nat) (h : Host)

theorem kind_muted : (h.muted port).kind = h.kind := by
  obtain ⟨location, env, log, closing, wrappers, role⟩ := h
  cases role <;> rfl

theorem location_muted : (h.muted port).location = h.location := by
  obtain ⟨location, env, log, closing, wrappers, role⟩ := h
  cases role <;> rfl

theorem attachWrapper_muted : (h.muted port).attachWrapper = h.attachWrapper.muted port := by
  obtain ⟨location, env, log, closing, wrappers, role⟩ := h
  cases role <;> rfl

/-- Whether there is such a port. -/
def Registered (h : Host) (port : Nat) : Prop :=
  ∃ ports, h.ports? = some ports ∧ port < ports.size

theorem registered_muted : (h.muted port).Registered port ↔ h.Registered port := by
  obtain ⟨location, env, log, closing, wrappers, role⟩ := h
  cases role with
  | dedicated => exact Iff.rfl
  | shared name ports =>
      have hsize : (ports.setIfInBounds port ⟨#[], true⟩).size = ports.size :=
        Array.size_setIfInBounds
      constructor
      · rintro ⟨_, hports, hlt⟩
        obtain rfl := Option.some.inj hports
        exact ⟨ports, rfl, hsize ▸ hlt⟩
      · rintro ⟨_, hports, hlt⟩
        obtain rfl := Option.some.inj hports
        exact ⟨_, rfl, hsize.symm ▸ hlt⟩

theorem muted_of_not_registered {port : Nat} {h : Host} (hport : ¬ h.Registered port) :
    h.muted port = h := by
  obtain ⟨location, env, log, closing, wrappers, role⟩ := h
  cases role with
  | dedicated => rfl
  | shared name ports =>
      have hge : ports.size ≤ port := Nat.not_lt.1 fun hlt => hport ⟨ports, rfl, hlt⟩
      exact congrArg (fun ports => Host.mk location env log closing wrappers (.shared name ports))
        (Array.setIfInBounds_eq_of_size_le hge)

theorem Registered.connect? {port : Nat} {h : Host} (hport : h.Registered port) :
    (h.muted port).connect? = h.connect?.map (Prod.map id (Host.muted port)) := by
  obtain ⟨location, env, log, closing, wrappers, role⟩ := h
  obtain ⟨ports, hports, hlt⟩ := hport
  cases role with
  | dedicated => exact nomatch hports
  | shared name ports =>
      obtain rfl := Option.some.inj hports
      have hpush : (ports.setIfInBounds port ⟨#[], true⟩).push .new =
          (ports.push .new).setIfInBounds port ⟨#[], true⟩ := by
        refine Array.ext_getElem? fun i => ?_
        grind
      exact congrArg₂ (fun n ports => some (n, Host.mk location env log closing wrappers
        (.shared name ports))) Array.size_setIfInBounds hpush

end Host

namespace GlobalScope

theorem properties_muted (port : Nat) (host : Host) :
    properties (host.muted port) = properties host := by
  obtain ⟨location, env, log, closing, wrappers, role⟩ := host
  cases role <;> rfl

theorem build_muted (port : Nat) (heap : Heap) (scopes : Scopes) (host : Host) :
    build heap scopes (host.muted port) = build heap scopes host := by
  unfold build
  rw [properties_muted]

end GlobalScope

namespace Environment

variable (port : Nat) (e : Environment) (host : Host) (oversight : Oversight)

theorem ensureGlobal_muted :
    e.ensureGlobal (host.muted port) =
      Prod.map id (Prod.map id (Host.muted port)) (e.ensureGlobal host) := by
  unfold ensureGlobal
  rw [GlobalScope.build_muted, Host.attachWrapper_muted]
  generalize GlobalScope.build e.heap e.scopes host = built
  cases e.global <;> rfl

variable {run : Machine → Completion × Machine} (hrun : Machine.Deaf port run)
include hrun

theorem execute_muted :
    e.execute (host.muted port) run =
      Prod.map id (Prod.map id (Host.muted port)) (e.execute host run) := by
  obtain ⟨b, hb⟩ := hrun (.start e.heap e.scopes e.pending host)
  have hstart : Machine.start e.heap e.scopes e.pending (host.muted port) =
    (Machine.start e.heap e.scopes e.pending host).muted port := rfl
  unfold execute
  rw [hstart, hb]
  rfl

theorem postings_muted :
    e.postings (host.muted port) run = (e.postings host run).map (Posting.muted port) := by
  obtain ⟨b, hb⟩ := hrun (.start e.heap e.scopes e.pending host)
  have hstart : Machine.start e.heap e.scopes e.pending (host.muted port) =
    (Machine.start e.heap e.scopes e.pending host).muted port := rfl
  unfold postings
  rw [hstart, hb]
  exact List.map_reverse.symm

omit hrun

theorem run_muted (source : SourceUnit) :
    e.run (host.muted port) source oversight =
        Prod.map id (Prod.map id (Host.muted port)) (e.run host source oversight) ∧
      e.runPostings (host.muted port) source oversight =
        (e.runPostings host source oversight).map (Posting.muted port) := by
  unfold run runPostings
  rw [ensureGlobal_muted]
  generalize e.ensureGlobal host = ready
  obtain ⟨g, e, host⟩ := ready
  cases Source.parse source.text with
  | error fault => exact ⟨rfl, rfl⟩
  | ok program =>
      have hrun : Machine.Deaf port fun m =>
          m.runProgram ((e.collectGarbage g).setting g oversight) program :=
        Task.deaf port _ (.program program)
      exact ⟨congrArg (Prod.map (absolute source) id)
        (execute_muted port (e.collectGarbage g) host hrun),
        postings_muted port (e.collectGarbage g) host hrun⟩

theorem dispatch_muted (handler : String) {event : Heap.Step Value}
    (hevent : ∀ s, Machine.Deaf port fun m => m.dispatch s handler event) :
    e.dispatch (host.muted port) oversight handler event =
        Prod.map id (Prod.map id (Host.muted port)) (e.dispatch host oversight handler event) ∧
      e.dispatchPostings (host.muted port) oversight handler event =
        (e.dispatchPostings host oversight handler event).map (Posting.muted port) := by
  unfold dispatch dispatchPostings
  rw [ensureGlobal_muted]
  generalize e.ensureGlobal host = ready
  obtain ⟨g, e, host⟩ := ready
  exact ⟨execute_muted port (e.collectGarbage g) host (hevent _),
    postings_muted port (e.collectGarbage g) host (hevent _)⟩

theorem dispatchMessage_muted (data : Option Json) :
    e.dispatchMessage (host.muted port) oversight data =
        Prod.map id (Prod.map id (Host.muted port)) (e.dispatchMessage host oversight data) ∧
      e.dispatchPostings (host.muted port) oversight "onmessage" (messageEvent data) =
        (e.dispatchPostings host oversight "onmessage" (messageEvent data)).map
          (Posting.muted port) :=
  e.dispatch_muted port host oversight "onmessage" fun s => Task.deaf port s (.message _ data)

theorem dispatchConnect_muted (other : Nat) :
    e.dispatchConnect (host.muted port) oversight other =
        Prod.map id (Prod.map id (Host.muted port)) (e.dispatchConnect host oversight other) ∧
      e.dispatchPostings (host.muted port) oversight "onconnect" (connectEvent other) =
        (e.dispatchPostings host oversight "onconnect" (connectEvent other)).map
          (Posting.muted port) :=
  e.dispatch_muted port host oversight "onconnect" fun s => Task.deaf port s (.connect _ other)

end Environment

namespace Worker

def muted (port : Nat) (w : Worker) : Worker :=
  { w with host := w.host.muted port }

variable (port : Nat) (w : Worker) (guard : Guard) (around : Surroundings)

@[simp] theorem muted_environment : (w.muted port).environment = w.environment := rfl

@[simp] theorem muted_host : (w.muted port).host = w.host.muted port := rfl

@[simp] theorem muted_budget : (w.muted port).budget = w.budget := rfl

@[simp] theorem muted_reports : (w.muted port).reports = w.reports := rfl

@[simp] theorem oversight_muted :
    (w.muted port).oversight guard around = w.oversight guard around :=
  rfl

theorem classify_muted (completion : Completion) (origin : String) (policy : ErrorPolicy) :
    (w.muted port).classify completion origin policy =
      Prod.map id (muted port) (w.classify completion origin policy) := by
  cases completion with
  | thrown value line => cases policy <;> rfl
  | _ => rfl

theorem ensureGlobal_muted : (w.muted port).ensureGlobal = w.ensureGlobal.muted port := by
  have h := w.environment.ensureGlobal_muted port w.host
  unfold ensureGlobal muted
  dsimp only
  rw [h]
  rfl

theorem decode_muted (payload : List UInt8) :
    (w.muted port).decode payload =
      (w.decode payload).map (Prod.map id (muted port)) := by
  have henvironment : (w.muted port).environment = w.environment := rfl
  unfold decode
  rw [henvironment]
  split
  · rfl
  · next fault _ =>
    cases w.environment.createError .dataClone
        ("Failed to deserialize message: " ++ fault.message) with
    | error => rfl
    | ok created =>
        change (created.2.inject created.1 >>= _) = Except.map _ (created.2.inject created.1 >>= _)
        cases created.2.inject created.1 <;> rfl

theorem evaluate_muted (source : SourceUnit) (policy : ErrorPolicy) :
    (w.muted port).evaluate guard around source policy =
      Prod.map id (muted port) (w.evaluate guard around source policy) := by
  rw [evaluate_eq, evaluate_eq]
  split
  · rfl
  · have hrun := (w.environment.run_muted port w.host (w.oversight guard around) source).1
    simp only [muted_environment, muted_host, muted_budget, muted_reports, oversight_muted, hrun]
    generalize w.environment.run w.host source (w.oversight guard around) = r
    exact classify_muted port ⟨r.2.1, r.2.2, w.budget, w.reports⟩ r.1 _ _

theorem deliver_muted (payload : List UInt8) :
    (w.muted port).deliver guard around payload =
      (w.deliver guard around payload).map (Prod.map id (muted port)) := by
  have hkind : (w.muted port).host.kind = w.host.kind := w.host.kind_muted port
  rw [deliver_eq, deliver_eq, hkind, ensureGlobal_muted, decode_muted]
  split
  · split
    · rfl
    · cases w.ensureGlobal.decode payload with
      | error misuse => rfl
      | ok decoded =>
          obtain ⟨data, v⟩ := decoded
          have hrun := (v.environment.dispatchMessage_muted port v.host (v.oversight guard around)
            data).1
          have hlocation := v.host.location_muted port
          simp only [Except.map, Prod.map_apply, id_eq, muted_environment, muted_host, muted_budget,
            muted_reports, oversight_muted, hrun, hlocation]
          generalize v.environment.dispatchMessage v.host (v.oversight guard around) data = r
          exact congrArg Except.ok (classify_muted port ⟨r.2.1, r.2.2, v.budget, v.reports⟩ r.1 _ _)
  · rfl

variable {w}

theorem connect_muted (hport : w.host.Registered port) :
    (w.muted port).connect guard around =
      (w.connect guard around).map (Prod.map id (muted port)) := by
  have hkind : (w.muted port).host.kind = w.host.kind := w.host.kind_muted port
  have hconnect : (w.muted port).host.connect? =
      w.host.connect?.map (Prod.map id (Host.muted port)) := hport.connect?
  rw [connect_eq, connect_eq, hkind, hconnect]
  split
  · split
    · rfl
    · cases w.host.connect? with
      | none => rfl
      | some connected =>
          obtain ⟨other, host⟩ := connected
          have hrun := (w.environment.dispatchConnect_muted port host (w.oversight guard around)
            other).1
          have hlocation := host.location_muted port
          simp only [Except.map, Option.map, Prod.map_apply, id_eq, muted_environment, muted_budget,
            muted_reports, oversight_muted, hrun, hlocation]
          generalize w.environment.dispatchConnect host (w.oversight guard around) other = r
          exact congrArg Except.ok (classify_muted port ⟨r.2.1, r.2.2, w.budget, w.reports⟩ r.1 _ _)
  · rfl

/-- Usage errors do not depend on the ports. -/
theorem reply_muted {α : Type} (f : α → Reply) {x y : Except UsageError (α × Worker)}
    (h : x = y.map (Prod.map id (muted port))) :
    (w.muted port).reply (x.map (·.map f id)) =
      Prod.map id (muted port) (w.reply (y.map (·.map f id))) := by
  subst h
  cases y <;> rfl

theorem perform_muted (hport : w.host.Registered port) (given : List Value) (op : Operation) :
    (w.muted port).perform given guard around op =
      Prod.map id (muted port) (w.perform given guard around op) := by
  cases op with
  | evaluate source policy =>
      exact congrArg (Prod.map Reply.outcome id) (w.evaluate_muted port guard around source policy)
  | deliver payload => exact reply_muted port _ (w.deliver_muted port guard around payload)
  | connect => exact reply_muted port _ (connect_muted port guard around hport)
  | createError kind message =>
      refine reply_muted port _ ?_
      have henvironment : (w.ensureGlobal.muted port).environment =
        w.ensureGlobal.environment := rfl
      rw [createError_eq, createError_eq, ensureGlobal_muted, henvironment]
      cases w.ensureGlobal.environment.createError kind message <;> rfl
  | inject offer =>
      have henvironment : (w.muted port).environment = w.environment := rfl
      change (w.muted port).reply (((w.muted port).inject (offer.resolve given)).map _) =
        Prod.map id (muted port) (w.reply ((w.inject (offer.resolve given)).map _))
      rw [inject_eq, inject_eq, henvironment]
      cases w.environment.inject (offer.resolve given) <;> rfl
  | describe offer => rfl

theorem postings_muted (hport : w.host.Registered port) (op : Operation) :
    (w.muted port).postings guard around op =
      (w.postings guard around op).map (Posting.muted port) := by
  have hkind : (w.muted port).host.kind = w.host.kind := w.host.kind_muted port
  have hconnect : (w.muted port).host.connect? =
      w.host.connect?.map (Prod.map id (Host.muted port)) := hport.connect?
  cases op with
  | evaluate source policy =>
      unfold postings
      dsimp only
      split
      · rfl
      · exact (w.environment.run_muted port w.host _ source).2
  | deliver payload =>
      unfold postings
      dsimp only
      rw [hkind, ensureGlobal_muted, decode_muted]
      split
      · split
        · rfl
        · cases w.ensureGlobal.decode payload with
          | error => rfl
          | ok decoded =>
              exact (decoded.2.environment.dispatchMessage_muted port decoded.2.host _ decoded.1).2
      · rfl
  | connect =>
      unfold postings
      dsimp only
      rw [hkind, hconnect]
      split
      · split
        · rfl
        · cases w.host.connect? with
          | none => rfl
          | some connected =>
              exact (w.environment.dispatchConnect_muted port connected.2 _ connected.1).2
      · rfl
  | createError | inject | describe => rfl

end Worker

def Event.muted (port : Nat) (event : Event) : Event :=
  { event with host := event.host.muted port }

namespace Session

def muted (port : Nat) (s : Session) : Session :=
  { s with worker := s.worker.muted port }

theorem muted_of_not_registered {s : Session} {port : Nat}
    (hport : ¬ s.worker.host.Registered port) : s.muted port = s :=
  congrArg (fun host => { s with worker := { s.worker with host := host } })
    (Host.muted_of_not_registered hport)

/-- An operation does the same when a port has no receiver. -/
theorem turn_muted {s : Session} {port : Nat} (hport : s.worker.host.Registered port)
    (clock : Nat → Nat) (t : Turn) :
    (s.muted port).turn clock t =
      Prod.map (Event.muted port) (muted port) (s.turn clock t) := by
  have hperform := Worker.perform_muted port t.guard (t.around clock) hport s.given t.operation
  change (s.worker.muted port).perform s.given t.guard (t.around clock) t.operation = _ at hperform
  unfold turn muted
  dsimp only
  rw [hperform]
  rfl

end Session

end ScriptHost

import ScriptHost.Proofs.Session.Operations

/-!
What a worker does with its environment and its host in the course of an operation, stage by stage.
-/

namespace ScriptHost

namespace Environment

/-- The calls of port functions in a run of the machine, first one first. -/
def postings (e : Environment) (host : Host) (run : Machine → Completion × Machine) :
    List Posting :=
  (run (.start e.heap e.scopes e.pending host)).2.posts.reverse

def runPostings (e : Environment) (host : Host) (source : SourceUnit) (oversight : Oversight) :
    List Posting :=
  let (global, e, host) := e.ensureGlobal host
  let e := e.collectGarbage global
  match Source.parse source.text with
  | .error _ => []
  | .ok program => e.postings host fun m => m.runProgram (e.setting global oversight) program

def dispatchPostings (e : Environment) (host : Host) (oversight : Oversight) (handler : String)
    (event : Heap.Step Value) : List Posting :=
  let (global, e, host) := e.ensureGlobal host
  let e := e.collectGarbage global
  e.postings host fun m => m.dispatch (e.setting global oversight) handler event

inductive Stage (e : Environment) (host : Host) : List Posting → Environment → Host → Prop
  | ensured : Stage e host [] (e.ensureGlobal host).2.1 (e.ensureGlobal host).2.2
  | created {kind : ErrorKind} {message : String} {value : Value} {e' : Environment} :
      e.createError kind message = .ok (value, e') → Stage e host [] e' host
  | injected {value : Value} {e' : Environment} : e.inject value = .ok e' → Stage e host [] e' host
  | ran (source : SourceUnit) (oversight : Oversight) :
      Stage e host (e.runPostings host source oversight) (e.run host source oversight).2.1
        (e.run host source oversight).2.2
  | messaged (oversight : Oversight) (data : Option Json) :
      (∀ json ∈ data, ∃ payload, Json.ofBytes payload = .ok json) →
      Stage e host (e.dispatchPostings host oversight "onmessage" (messageEvent data))
        (e.dispatchMessage host oversight data).2.1 (e.dispatchMessage host oversight data).2.2
  | connected {port : Nat} {host' : Host} (oversight : Oversight) :
      host.connect? = some (port, host') →
      Stage e host (e.dispatchPostings host' oversight "onconnect" (connectEvent port))
        (e.dispatchConnect host' oversight port).2.1 (e.dispatchConnect host' oversight port).2.2

inductive Stages : Environment → Host → List Posting → Environment → Host → Prop
  | none {e : Environment} {host : Host} : Stages e host [] e host
  | next {e e' e'' : Environment} {host host' host'' : Host} {ps ps' : List Posting} :
      Stage e host ps e' host' → Stages e' host' ps' e'' host'' →
      Stages e host (ps ++ ps') e'' host''

variable {e e' e'' : Environment} {host host' host'' : Host} {ps ps' : List Posting}

theorem Stage.one (h : Stage e host ps e' host') : Stages e host ps e' host' :=
  List.append_nil ps ▸ .next h .none

theorem Stages.trans (h : Stages e host ps e' host') (h' : Stages e' host' ps' e'' host'') :
    Stages e host (ps ++ ps') e'' host'' := by
  induction h with
  | none => exact h'
  | next hstage _ ih => exact List.append_assoc _ _ ps' ▸ .next hstage (ih h')

/-- What every stage keeps, given the calls of port functions so far. -/
theorem Stages.keep {P : List Posting → Environment → Host → Prop}
    (hstage : ∀ {e e' : Environment} {host host' : Host} {qs ps : List Posting},
      Stage e host ps e' host' → P qs e host → P (qs ++ ps) e' host')
    (h : Stages e host ps e' host') (qs : List Posting) (hP : P qs e host) :
    P (qs ++ ps) e' host' := by
  induction h generalizing qs with
  | none => exact (List.append_nil qs).symm ▸ hP
  | next hfirst _ ih => exact List.append_assoc qs _ _ ▸ ih _ (hstage hfirst hP)

end Environment

namespace Worker

/-- The calls of port functions in the run that an operation starts, if it starts one. -/
def postings (w : Worker) (guard : Guard) (around : Surroundings) : Operation → List Posting
  | .evaluate source _ =>
      if guard.forbidden then []
      else w.environment.runPostings w.host source (w.oversight guard around)
  | .deliver payload =>
      if w.host.kind = .dedicated then
        if guard.forbidden then []
        else
          match w.ensureGlobal.decode payload with
          | .error _ => []
          | .ok (data, w) =>
              w.environment.dispatchPostings w.host (w.oversight guard around) "onmessage"
                (Environment.messageEvent data)
      else []
  | .connect =>
      if w.host.kind = .shared then
        if guard.forbidden then []
        else
          match w.host.connect? with
          | none => []
          | some (port, host) =>
              w.environment.dispatchPostings host (w.oversight guard around) "onconnect"
                (Environment.connectEvent port)
      else []
  | _ => []

/-- The budget stays, and so does the list of reports, if there is one. -/
structure Advances (w : Worker) (ps : List Posting) (v : Worker) : Prop where
  stages : Environment.Stages w.environment w.host ps v.environment v.host
  budget : v.budget = w.budget
  reports : v.reports.isSome = w.reports.isSome

variable {u v w : Worker} {ps ps' : List Posting} {given : List Value} {guard : Guard}
  {around : Surroundings}

namespace Advances

theorem refl (w : Worker) : w.Advances [] w :=
  ⟨.none, rfl, rfl⟩

theorem trans (h : w.Advances ps v) (h' : v.Advances ps' u) : w.Advances (ps ++ ps') u :=
  ⟨h.stages.trans h'.stages, h'.budget.trans h.budget, h'.reports.trans h.reports⟩

theorem classify (h : w.Advances ps v) (completion : Completion) (origin : String)
    (policy : ErrorPolicy) : w.Advances ps (v.classify completion origin policy).2 := by
  cases completion with
  | thrown value line =>
      unfold Worker.classify
      dsimp only
      split
      · refine ⟨h.stages, h.budget, ?_⟩
        rw [report, ← h.reports]
        exact Option.isSome_map
      · exact h
  | _ => exact h

theorem ran {r : Completion × Environment × Host}
    (h : Environment.Stages w.environment w.host ps r.2.1 r.2.2) (origin : String)
    (policy : ErrorPolicy) :
    w.Advances ps (Worker.classify ⟨r.2.1, r.2.2, w.budget, w.reports⟩ r.1 origin policy).2 := by
  have hrun : w.Advances ps ⟨r.2.1, r.2.2, w.budget, w.reports⟩ := ⟨h, rfl, rfl⟩
  exact hrun.classify r.1 origin policy

theorem reply {α : Type} {x : Except UsageError (α × Worker)} (f : α → Reply)
    (herror : ∀ misuse, x = .error misuse → ps = [])
    (hok : ∀ a v, x = .ok (a, v) → w.Advances ps v) :
    w.Advances ps (w.reply (x.map (·.map f id))).2 := by
  cases x with
  | error misuse =>
      rw [herror misuse rfl]
      exact refl w
  | ok result => exact hok result.1 result.2 rfl

end Advances

theorem advances_ensureGlobal (w : Worker) : w.Advances [] w.ensureGlobal :=
  ⟨Environment.Stage.ensured.one, rfl, rfl⟩

theorem advances_decode {payload : List UInt8} {data : Option Json}
    (h : w.decode payload = .ok (data, v)) : w.Advances [] v := by
  rcases decode_cases h with ⟨_, -, -, rfl⟩ | ⟨_, _, _, -, hcreate, hinject, -, rfl⟩
  · exact .refl v
  · exact ⟨(Environment.Stage.created hcreate).one.trans
      (Environment.Stage.injected hinject).one, rfl, rfl⟩

theorem data_decode {payload : List UInt8} {data : Option Json}
    (h : w.decode payload = .ok (data, v)) : ∀ json ∈ data, Json.ofBytes payload = .ok json := by
  intro json hjson
  rcases decode_cases h with ⟨found, hfound, rfl, -⟩ | ⟨_, _, _, -, -, -, rfl, -⟩
  · exact Option.some.inj hjson ▸ hfound
  · exact nomatch hjson

theorem advances_evaluate (source : SourceUnit) (policy : ErrorPolicy) :
    w.Advances (w.postings guard around (.evaluate source policy))
      (w.evaluate guard around source policy).2 := by
  rw [evaluate_eq, postings]
  split
  · exact .refl w
  · exact .ran (Environment.Stage.ran source _).one _ _

theorem advances_deliver (payload : List UInt8) :
    w.Advances (w.postings guard around (.deliver payload))
      (w.reply ((w.deliver guard around payload).map (·.map .outcome id))).2 := by
  rw [deliver_eq, postings]
  split
  · split
    · exact .refl w
    · cases hdecode : w.ensureGlobal.decode payload with
      | error misuse => exact .refl w
      | ok decoded =>
          obtain ⟨data, v⟩ := decoded
          have hready := w.advances_ensureGlobal.trans (advances_decode hdecode)
          have hdata : ∀ json ∈ data, ∃ payload, Json.ofBytes payload = .ok json :=
            fun json hjson => ⟨payload, data_decode hdecode json hjson⟩
          exact hready.trans (.ran (Environment.Stage.messaged _ data hdata).one _ _)
  · exact .refl w

theorem advances_connect :
    w.Advances (w.postings guard around .connect)
      (w.reply ((w.connect guard around).map (·.map .outcome id))).2 := by
  rw [connect_eq, postings]
  split
  · split
    · exact .refl w
    · cases hconnect : w.host.connect? with
      | none => exact .refl w
      | some connected =>
          obtain ⟨port, host⟩ := connected
          exact .ran (Environment.Stage.connected _ hconnect).one _ _
  · exact .refl w

theorem advances_perform (op : Operation) :
    w.Advances (w.postings guard around op) (w.perform given guard around op).2 := by
  cases op with
  | evaluate source policy => exact advances_evaluate source policy
  | deliver payload => exact advances_deliver payload
  | connect => exact advances_connect
  | createError kind message =>
      refine Advances.reply _ (fun _ _ => rfl) fun error v hv => ?_
      rw [createError_eq] at hv
      split at hv
      · exact nomatch hv
      · next hcreate =>
        obtain ⟨-, rfl⟩ := Prod.mk.inj (Except.ok.inj hv)
        exact w.advances_ensureGlobal.trans ⟨(Environment.Stage.created hcreate).one, rfl, rfl⟩
  | inject offer =>
      change w.Advances [] (w.reply ((w.inject (offer.resolve given)).map (Reply.injected, ·))).2
      rw [inject_eq]
      cases hinject : w.environment.inject (offer.resolve given) with
      | error => exact .refl w
      | ok environment => exact ⟨(Environment.Stage.injected hinject).one, rfl, rfl⟩
  | describe offer => exact .refl w

theorem advances_takeReports (w : Worker) : w.Advances [] w.takeReports.2 :=
  ⟨.none, rfl, Option.isSome_map⟩

end Worker

theorem Session.advances_turn (s : Session) (clock : Nat → Nat) (t : Turn) :
    s.worker.Advances (s.worker.postings t.guard (t.around clock) t.operation)
      (s.turn clock t).2.worker :=
  List.append_nil (s.worker.postings t.guard (t.around clock) t.operation) ▸
    (Worker.advances_perform t.operation).trans (Worker.advances_takeReports _)

end ScriptHost

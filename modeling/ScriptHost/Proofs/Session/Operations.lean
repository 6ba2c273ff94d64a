import ScriptHost.Session

/-!
The operations of a worker, written out.
-/

namespace ScriptHost

namespace Environment

variable {e e' : Environment} {value : Value}

theorem createError_ok {kind : ErrorKind} {message : String}
    (h : e.createError kind message = .ok (value, e')) :
    e.isInitialized = true ∧ value = (e.heap.allocateHostError kind message).1 ∧
      e' = { e with heap := (e.heap.allocateHostError kind message).2 } := by
  unfold createError at h
  split at h
  · exact nomatch h
  · next hinit =>
    obtain ⟨rfl, rfl⟩ := Prod.mk.inj (Except.ok.inj h)
    exact ⟨by simpa using hinit, rfl, rfl⟩

theorem inject_ok (h : e.inject value = .ok e') :
    e.isInitialized = true ∧ e.heap.owns value = true ∧ e' = { e with pending := some value } := by
  unfold inject at h
  split at h
  · exact nomatch h
  · next hinit =>
    split at h
    · exact nomatch h
    · next howns => exact ⟨by simpa using hinit, by simpa using howns, (Except.ok.inj h).symm⟩

end Environment

namespace Worker

variable (w : Worker)

theorem evaluate_eq (guard : Guard) (around : Surroundings) (source : SourceUnit)
    (policy : ErrorPolicy) :
    w.evaluate guard around source policy =
      if guard.forbidden then (.suppressed, w)
      else
        let r := w.environment.run w.host source (w.oversight guard around)
        classify ⟨r.2.1, r.2.2, w.budget, w.reports⟩ r.1 source.origin policy :=
  rfl

theorem evaluate_normal {guard : Guard} {around : Surroundings} {source : SourceUnit} {v : Value}
    (hguard : guard.forbidden = false) (policy : ErrorPolicy)
    (hrun : (w.environment.run w.host source (w.oversight guard around)).1 = .normal v) :
    (w.evaluate guard around source policy).1 = .value v := by
  rw [evaluate_eq, hguard, if_neg Bool.false_ne_true]
  dsimp only
  rw [hrun]
  rfl

theorem deliver_eq (guard : Guard) (around : Surroundings) (payload : List UInt8) :
    w.deliver guard around payload =
      if w.host.kind = .dedicated then
        if guard.forbidden then .ok (.suppressed, w)
        else
          match w.ensureGlobal.decode payload with
          | .error misuse => .error misuse
          | .ok (data, w) =>
              let r := w.environment.dispatchMessage w.host (w.oversight guard around) data
              .ok (classify ⟨r.2.1, r.2.2, w.budget, w.reports⟩ r.1 w.host.location .report)
      else .error (.wrongWorkerKind .dedicated w.host.kind) := by
  unfold deliver requireKind
  split
  · change (if guard.forbidden then _ else _) = _
    split
    · rfl
    · cases w.ensureGlobal.decode payload <;> rfl
  · rfl

theorem connect_eq (guard : Guard) (around : Surroundings) :
    w.connect guard around =
      if w.host.kind = .shared then
        if guard.forbidden then .ok (.suppressed, w)
        else
          match w.host.connect? with
          | none => .ok (.suppressed, w)
          | some (port, host) =>
              let r := w.environment.dispatchConnect host (w.oversight guard around) port
              .ok (classify ⟨r.2.1, r.2.2, w.budget, w.reports⟩ r.1 host.location .report)
      else .error (.wrongWorkerKind .shared w.host.kind) := by
  unfold connect requireKind
  split
  · change (if guard.forbidden then _ else _) = _
    split
    · rfl
    · cases w.host.connect? <;> rfl
  · rfl

theorem createError_eq (kind : ErrorKind) (message : String) :
    w.createError kind message =
      match w.ensureGlobal.environment.createError kind message with
      | .error misuse => .error misuse
      | .ok (error, environment) =>
          .ok (error, { w.ensureGlobal with environment := environment }) := by
  unfold createError
  dsimp only
  cases w.ensureGlobal.environment.createError kind message <;> rfl

theorem inject_eq (value : Value) :
    w.inject value =
      match w.environment.inject value with
      | .error misuse => .error misuse
      | .ok environment => .ok { w with environment := environment } := by
  unfold inject
  cases w.environment.inject value <;> rfl

/-- A payload is read, or becomes an error that waits to be thrown. -/
theorem decode_cases {w v : Worker} {payload : List UInt8} {data : Option Json}
    (h : w.decode payload = .ok (data, v)) :
    (∃ json, Json.ofBytes payload = .ok json ∧ data = some json ∧ v = w) ∨
      ∃ fault created environment, Json.ofBytes payload = .error fault ∧
        w.environment.createError .dataClone
          ("Failed to deserialize message: " ++ fault.message) = .ok created ∧
        created.2.inject created.1 = .ok environment ∧ data = none ∧
        v = { w with environment := environment } := by
  unfold decode at h
  split at h
  · next json hjson =>
    obtain ⟨rfl, rfl⟩ := Prod.mk.inj (Except.ok.inj h)
    exact .inl ⟨json, hjson, rfl, rfl⟩
  · next fault hfault =>
    cases hcreate : w.environment.createError .dataClone
        ("Failed to deserialize message: " ++ fault.message) with
    | error => rw [hcreate] at h; exact nomatch h
    | ok created =>
        rw [hcreate] at h
        change (created.2.inject created.1 >>= _) = _ at h
        cases hinject : created.2.inject created.1 with
        | error => rw [hinject] at h; exact nomatch h
        | ok environment =>
            rw [hinject] at h
            obtain ⟨rfl, rfl⟩ := Prod.mk.inj (Except.ok.inj h)
            exact .inr ⟨fault, created, environment, hfault, hcreate, hinject, rfl, rfl⟩

theorem oversight_congr {w w' : Worker} (h : w'.budget = w.budget) :
    w'.oversight = w.oversight := by
  funext guard around
  rw [oversight, oversight, h]

theorem classify_ne_suppressed (completion : Completion) (origin : String) (policy : ErrorPolicy) :
    (w.classify completion origin policy).1 ≠ .suppressed := by
  cases completion <;> exact nofun

end Worker

end ScriptHost

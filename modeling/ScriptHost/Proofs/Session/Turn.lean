import ScriptHost.Proofs.Session.Environment
import ScriptHost.Proofs.Session.Stages

/-!
Turns of two sessions with workers over bonded heaps.
-/

namespace ScriptHost

variable {R S : ObjectId → ObjectId → Prop}

inductive Outcome.Matches (R : ObjectId → ObjectId → Prop) : Outcome → Outcome → Prop
  | value {v v' : Value} : v.Matches R v' → Matches R (.value v) (.value v')
  | thrown {v v' : Value} (message : String) (line : Nat) :
      v.Matches R v' → Matches R (.thrown v message line) (.thrown v' message line)
  | terminated (reason : TerminationReason) : Matches R (.terminated reason) (.terminated reason)
  | suppressed : Matches R .suppressed .suppressed
  | unfinished : Matches R .unfinished .unfinished

structure Report.Matches (R : ObjectId → ObjectId → Prop) (p p' : Report) : Prop where
  value : p.value.Matches R p'.value
  kind : p.kind = p'.kind
  message : p.message = p'.message
  origin : p.origin = p'.origin
  line : p.line = p'.line

inductive Reply.Matches (R : ObjectId → ObjectId → Prop) : Reply → Reply → Prop
  | outcome {o o' : Outcome} : o.Matches R o' → Matches R (.outcome o) (.outcome o')
  | created {v v' : Value} : v.Matches R v' → Matches R (.created v) (.created v')
  | injected : Matches R .injected .injected
  | described (text : String) : Matches R (.described text) (.described text)
  | refused (misuse : UsageError) : Matches R (.refused misuse) (.refused misuse)

/-- A host sees the same but for the names of objects. -/
structure Event.Matches (R : ObjectId → ObjectId → Prop) (x y : Event) : Prop where
  reply : x.reply.Matches R y.reply
  host : x.host = y.host
  reports : List.Forall₂ (Report.Matches R) x.reports y.reports

theorem Report.Matches.mono (hRS : ∀ a b, R a b → S a b) {p p' : Report} (h : p.Matches R p') :
    p.Matches S p' :=
  ⟨h.value.mono hRS, h.kind, h.message, h.origin, h.line⟩

theorem Reply.Matches.given {r r' : Reply} (h : r.Matches R r') {vs vs' : List Value}
    (hvs : r.isRun = false → List.Forall₂ (Value.Matches R) vs vs') :
    List.Forall₂ (Value.Matches R) (r.given vs) (r'.given vs') := by
  cases h with
  | outcome ho =>
    cases ho with
    | value hv => exact .cons hv .nil
    | thrown message line hv => exact .cons hv .nil
    | terminated reason => exact .nil
    | suppressed => exact hvs rfl
    | unfinished => exact .nil
  | created hv => exact List.rel_append (hvs rfl) (.cons hv .nil)
  | injected => exact hvs rfl
  | described text => exact hvs rfl
  | refused misuse => exact hvs rfl

def Reported (R : ObjectId → ObjectId → Prop) :
    Option (Array Report) → Option (Array Report) → Prop :=
  Option.Rel fun ps ps' => List.Forall₂ (Report.Matches R) ps.toList ps'.toList

theorem Reported.mono (hRS : ∀ a b, R a b → S a b) {x y : Option (Array Report)}
    (h : Reported R x y) : Reported S x y := by
  cases h with
  | none => exact .none
  | some hps => exact .some (hps.imp fun _ _ hp => hp.mono hRS)

theorem Heap.Paired.errorKind?_eq {P : ScopeId → Prop} {h h' : Heap} (hp : h.Paired R P h')
    {v v' : Value} (hv : v.Matches R v') : h.errorKind? v = h'.errorKind? v' := by
  cases hv with
  | @object a b hab =>
    obtain ⟨⟨kind, properties⟩, ⟨kind', properties'⟩, ho, ho', hkind, -⟩ := hp.live a b hab
    have hleft : (Value.object a).object?.bind h.find? = some ⟨kind, properties⟩ := ho
    have hright : (Value.object b).object?.bind h'.find? = some ⟨kind', properties'⟩ := ho'
    rw [errorKind?, errorKind?, hleft, hright]
    dsimp only at hkind
    cases hkind <;> rfl
  | primitive hnone =>
    rw [errorKind?, errorKind?, hnone]
    rfl

namespace Bond

variable {B : Bond} {w u v : Renaming} {e e' : Environment} {a b : Value}

/-! ## Environments asked from outside -/

theorem Environments.isInitialized_eq (hE : B.Environments w e e') :
    e.isInitialized = e'.isInitialized := by
  have hglobal := hE.global
  unfold Environment.isInitialized
  generalize e.global = x, e'.global = y at hglobal
  cases hglobal <;> rfl

/-- Values that stand for each other, or that neither of the heaps knows. -/
def Offered (w : Renaming) (e e' : Environment) (a b : Value) : Prop :=
  a.Matches w.objects b ∨ e.heap.owns a = false ∧ e'.heap.owns b = false

theorem Environments.describe_eq (hE : B.Environments w e e') (h : Offered w e e' a b) :
    e.describe a = e'.describe b := by
  unfold Environment.describe
  rcases h with hab | ⟨ha, hb⟩
  · have hp := B.paired hE.heap
    have hq := hp.swap
    rw [hp.owns hab, hq.owns hab.swap, hp.toMatches.display_eq hab]
  · rw [ha, hb]
    rfl

theorem Environments.inject (hE : B.Environments w e e') (h : Offered w e e' a b) :
    (∃ misuse, e.inject a = .error misuse ∧ e'.inject b = .error misuse) ∨
      ∃ f f', e.inject a = .ok f ∧ e'.inject b = .ok f' ∧ B.Environments w f f' := by
  unfold Environment.inject
  rw [← hE.isInitialized_eq]
  cases e.isInitialized with
  | false => exact .inl ⟨_, rfl, rfl⟩
  | true =>
    rcases h with hab | ⟨ha, hb⟩
    · have hp := B.paired hE.heap
      have hq := hp.swap
      rw [hp.owns hab, hq.owns hab.swap]
      exact .inr ⟨_, _, rfl, rfl, hE.heap, hE.scopes, .some hab, hE.global, hE.maxCallDepth⟩
    · rw [ha, hb]
      exact .inl ⟨_, rfl, rfl⟩

theorem Environments.createError (hE : B.Environments w e e') (hinit : e.isInitialized = true)
    (kind : ErrorKind) (message : String) :
    ∃ v a b f f', w.Later v ∧ e.createError kind message = .ok (a, f) ∧
      e'.createError kind message = .ok (b, f') ∧ a.Matches v.objects b ∧
      B.Environments v f f' ∧ f.isInitialized = true := by
  have hinit' := hE.isInitialized_eq.symm.trans hinit
  obtain ⟨ha, hb, hheap⟩ := B.place (Heap.errorObject kind message).slots hE.heap
    (Heap.errorObject_matches kind message)
  have hl := w.later_withPair ha hb
  unfold Environment.createError
  rw [hinit, hinit']
  exact ⟨_, _, _, _, _, hl, rfl, rfl, .object (.inr ⟨rfl, rfl⟩), ⟨hheap, hE.scopes.mono hl.objects,
    pending_mono hE.pending hl, globals_later hE.global hl, hE.maxCallDepth⟩, hinit⟩

/-! ## Workers -/

variable (B)

structure Workers (w : Renaming) (T : ObjectId → ObjectId → Prop) (W W' : Worker) : Prop where
  environment : B.Environments w W.environment W'.environment
  host : W.host = W'.host
  reports : Reported T W.reports W'.reports

variable {B} {T : ObjectId → ObjectId → Prop} {W W' : Worker} {c c' : Completion}

theorem Workers.ensureGlobal (h : B.Workers w T W W') :
    ∃ v, w.Later v ∧ B.Workers v T W.ensureGlobal W'.ensureGlobal ∧
      W.ensureGlobal.environment.isInitialized = true := by
  obtain ⟨v, hl, -, hE, hhost⟩ := h.environment.ensureGlobal W.host
  unfold Worker.ensureGlobal
  rw [← h.host]
  refine ⟨v, hl, ⟨hE, hhost, h.reports⟩, ?_⟩
  exact congrArg Option.isSome (W.environment.global_ensureGlobal W.host)

theorem Workers.report (h : B.Workers w T W W') (hT : ∀ a b, T a b → w.objects a b)
    (hab : a.Matches w.objects b) (message origin : String) (line : Nat) :
    B.Workers w w.objects (W.report a message origin line) (W'.report b message origin line) := by
  refine ⟨h.environment, h.host, ?_⟩
  have hreports := h.reports.mono hT
  unfold Worker.report
  dsimp only
  generalize W.reports = x, W'.reports = y at hreports
  cases hreports with
  | none => exact .none
  | some hps =>
    refine .some ?_
    rw [Array.toList_push, Array.toList_push]
    exact List.rel_append hps
      (.cons ⟨hab, (B.paired h.environment.heap).errorKind?_eq hab, rfl, rfl, rfl⟩ .nil)

theorem Workers.classify (h : B.Workers w T W W') (hT : ∀ a b, T a b → w.objects a b)
    (hc : c.Matches w.objects c') (origin : String) (policy : ErrorPolicy) :
    (W.classify c origin policy).1.Matches w.objects (W'.classify c' origin policy).1 ∧
      B.Workers w w.objects (W.classify c origin policy).2 (W'.classify c' origin policy).2 := by
  have hsame : B.Workers w w.objects W W' := ⟨h.environment, h.host, h.reports.mono hT⟩
  cases hc with
  | normal hv => exact ⟨.value hv, hsame⟩
  | returned hv => exact ⟨.value hv, hsame⟩
  | thrown line hv =>
    unfold Worker.classify
    dsimp only
    rw [← h.environment.describe_eq (.inl hv)]
    refine ⟨.thrown _ line hv, ?_⟩
    split
    · exact h.report hT hv _ origin line
    · exact hsame
  | terminated reason => exact ⟨.terminated reason, hsame⟩
  | starved => exact ⟨.unfinished, hsame⟩

theorem Workers.decode (h : B.Workers w T W W') (hinit : W.environment.isInitialized = true)
    (payload : List UInt8) :
    ∃ v data V V', w.Later v ∧ W.decode payload = .ok (data, V) ∧
      W'.decode payload = .ok (data, V') ∧ B.Workers v T V V' := by
  unfold Worker.decode
  cases Json.ofBytes payload with
  | ok data => exact ⟨w, some data, W, W', .refl w, rfl, rfl, h⟩
  | error fault =>
    obtain ⟨v, a, b, f, f', hl, hf, hf', hab, hE, hinit⟩ := h.environment.createError hinit
      .dataClone ("Failed to deserialize message: " ++ fault.message)
    dsimp only
    rw [hf, hf']
    rcases hE.inject (.inl hab) with ⟨misuse, hg, -⟩ | ⟨g, g', hg, hg', hG⟩
    · have howns := (B.paired hE.heap).owns hab
      rw [Environment.inject, hinit, howns] at hg
      exact nomatch hg
    · refine ⟨v, none, { W with environment := g }, { W' with environment := g' }, hl, ?_, ?_,
        ⟨hG, h.host, h.reports⟩⟩
      · change (f.inject a >>= _) = _
        rw [hg]
        rfl
      · change (f'.inject b >>= _) = _
        rw [hg']
        rfl

/-! ## Turns -/

variable (B)

/-- Replies that stand for each other, with bonded workers behind them. -/
def Answered (w : Renaming) (r r' : Reply × Worker) : Prop :=
  B.Lenient ∧ (r.1 = .outcome (.terminated .memoryLimit) ∨
      r'.1 = .outcome (.terminated .memoryLimit)) ∨
    ∃ v, w.After 1 v ∧ (r.1.isRun = false → w.Later v) ∧ r.1.Matches v.objects r'.1 ∧
      B.Workers v v.objects r.2 r'.2

variable {B} {x y : Reply × Worker}

theorem Answered.later (hl : w.Later u) (h : B.Answered u x y) : B.Answered w x y := by
  rcases h with h | ⟨v, hafter, hlater, h⟩
  · exact .inl h
  · exact .inr ⟨v, (hl.after.trans hafter).mono (by omega), fun hr => hl.trans (hlater hr), h⟩

theorem Workers.answered (h : B.Workers w T W W') (hT : ∀ a b, T a b → w.objects a b)
    {r r' : Reply} (hr : r.Matches w.objects r') : B.Answered w (r, W) (r', W') :=
  .inr ⟨w, (Renaming.After.refl w).mono (by omega), fun _ => .refl w, hr, h.environment, h.host,
    h.reports.mono hT⟩

theorem Ran.answered {r r' : Completion × Environment × Host} (h : B.Ran 1 w r r')
    {budget budget' : Option Nat} {reports reports' : Option (Array Report)}
    (hreports : Reported Unrelated reports reports') (origin : String) (policy : ErrorPolicy) :
    B.Answered w
      ((Worker.classify ⟨r.2.1, r.2.2, budget, reports⟩ r.1 origin policy).map
        .outcome id)
      ((Worker.classify ⟨r'.2.1, r'.2.2, budget', reports'⟩ r'.1 origin policy).map
        .outcome id) := by
  rcases h with ⟨hl, h | h⟩ | ⟨v, hafter, hE, hhost, hc⟩
  · exact .inl ⟨hl, .inl (by rw [h]; rfl)⟩
  · exact .inl ⟨hl, .inr (by rw [h]; rfl)⟩
  · have hW : B.Workers v Unrelated ⟨r.2.1, r.2.2, budget, reports⟩
        ⟨r'.2.1, r'.2.2, budget', reports'⟩ := ⟨hE, hhost, hreports⟩
    obtain ⟨houtcome, hworkers⟩ := hW.classify unrelated hc origin policy
    refine .inr ⟨v, hafter, fun hrun => ?_, .outcome houtcome, hworkers⟩
    have hne := Worker.classify_ne_suppressed ⟨r.2.1, r.2.2, budget, reports⟩ r.1 origin policy
    rw [Prod.map_fst] at hrun
    generalize (Worker.classify ⟨r.2.1, r.2.2, budget, reports⟩ r.1 origin policy).1 = o at hrun hne
    cases o with
    | suppressed => exact absurd rfl hne
    | _ => exact nomatch hrun

section Turns

variable {guard : Guard} {around around' : Surroundings} {vs vs' : List Value}

theorem Workers.evaluate (h : B.Workers w Unrelated W W')
    (hover : W.oversight guard around = W'.oversight guard around') (source : SourceUnit)
    (policy : ErrorPolicy) :
    B.Answered w ((W.evaluate guard around source policy).map .outcome id)
      ((W'.evaluate guard around' source policy).map .outcome id) := by
  rw [Worker.evaluate_eq, Worker.evaluate_eq]
  split
  · exact h.answered unrelated (.outcome .suppressed)
  · rw [← h.host, ← hover]
    exact (h.environment.run W.host source _).answered h.reports source.origin policy

theorem Workers.deliver (h : B.Workers w Unrelated W W')
    (hover : W.oversight guard around = W'.oversight guard around') (payload : List UInt8) :
    B.Answered w (W.reply ((W.deliver guard around payload).map (·.map .outcome id)))
      (W'.reply ((W'.deliver guard around' payload).map (·.map .outcome id))) := by
  rw [Worker.deliver_eq, Worker.deliver_eq, ← h.host]
  split
  · split
    · exact h.answered unrelated (.outcome .suppressed)
    · obtain ⟨u, hu, hU, hinit⟩ := h.ensureGlobal
      obtain ⟨v, data, V, V', hv, hd, hd', hV⟩ := hU.decode hinit payload
      have hleft : V.oversight = W.oversight :=
        Worker.oversight_congr (Worker.advances_decode hd).budget
      have hright : V'.oversight = W'.oversight :=
        Worker.oversight_congr (Worker.advances_decode hd').budget
      rw [hd, hd']
      dsimp only
      rw [hleft, hright, ← hover, ← hV.host]
      exact ((hV.environment.dispatchMessage V.host _ data).answered hV.reports V.host.location
        .report).later (hu.trans hv)
  · exact h.answered unrelated (.refused _)

theorem Workers.connect (h : B.Workers w Unrelated W W')
    (hover : W.oversight guard around = W'.oversight guard around') :
    B.Answered w (W.reply ((W.connect guard around).map (·.map .outcome id)))
      (W'.reply ((W'.connect guard around').map (·.map .outcome id))) := by
  rw [Worker.connect_eq, Worker.connect_eq, ← h.host]
  split
  · split
    · exact h.answered unrelated (.outcome .suppressed)
    · cases W.host.connect? with
      | none => exact h.answered unrelated (.outcome .suppressed)
      | some connected =>
        obtain ⟨port, host⟩ := connected
        dsimp only
        rw [← hover]
        exact (h.environment.dispatchConnect host _ port).answered h.reports host.location .report
  · exact h.answered unrelated (.refused _)

theorem Workers.createError (h : B.Workers w Unrelated W W') (kind : ErrorKind) (message : String) :
    B.Answered w (W.reply ((W.createError kind message).map (·.map .created id)))
      (W'.reply ((W'.createError kind message).map (·.map .created id))) := by
  obtain ⟨u, hu, hU, hinit⟩ := h.ensureGlobal
  obtain ⟨v, a, b, f, f', hl, hf, hf', hab, hE, -⟩ := hU.environment.createError hinit kind message
  rw [Worker.createError_eq, Worker.createError_eq, hf, hf']
  have hV : B.Workers v Unrelated { W.ensureGlobal with environment := f }
      { W'.ensureGlobal with environment := f' } := ⟨hE, hU.host, hU.reports⟩
  exact (hV.answered unrelated (.created hab)).later (hu.trans hl)

theorem Workers.inject (h : B.Workers w Unrelated W W')
    (hoffer : Offered w W.environment W'.environment a b) :
    B.Answered w (W.reply ((W.inject a).map (.injected, ·)))
      (W'.reply ((W'.inject b).map (.injected, ·))) := by
  rw [Worker.inject_eq, Worker.inject_eq]
  rcases h.environment.inject hoffer with ⟨misuse, hf, hf'⟩ | ⟨f, f', hf, hf', hE⟩
  · rw [hf, hf']
    exact h.answered unrelated (.refused misuse)
  · rw [hf, hf']
    have hV : B.Workers w Unrelated { W with environment := f } { W' with environment := f' } :=
      ⟨hE, h.host, h.reports⟩
    exact hV.answered unrelated .injected

theorem Workers.perform (h : B.Workers w Unrelated W W')
    (hover : W.oversight guard around = W'.oversight guard around') (op : Operation)
    (hoffer : ∀ offer, op.offer? = some offer →
      Offered w W.environment W'.environment (offer.resolve vs) (offer.resolve vs')) :
    B.Answered w (W.perform vs guard around op) (W'.perform vs' guard around' op) := by
  cases op with
  | evaluate source policy => exact h.evaluate hover source policy
  | deliver payload => exact h.deliver hover payload
  | connect => exact h.connect hover
  | createError kind message => exact h.createError kind message
  | inject offer => exact h.inject (hoffer offer rfl)
  | describe offer =>
    have hsame : W.describe (offer.resolve vs) = W'.describe (offer.resolve vs') :=
      h.environment.describe_eq (hoffer offer rfl)
    have hreply : (Reply.described (W.describe (offer.resolve vs))).Matches w.objects
        (.described (W'.describe (offer.resolve vs'))) := hsame ▸ .described _
    exact h.answered unrelated hreply

end Turns

end Bond

end ScriptHost

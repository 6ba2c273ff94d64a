import ScriptHost.Proofs.Coupling.Programs

/-!
The global scope made on two coupled machines.
-/

namespace ScriptHost

namespace GlobalScope

variable {α β : Type}

def step (x : Building α) : Run α :=
  Run.onHeap (modifyGet x)

theorem step_pure (a : α) : step (pure a) = pure a := rfl

theorem step_bind (x : Building α) (f : α → Building β) :
    step (x >>= f) = step x >>= fun a => step (f a) := rfl

/-- The making of a global scope for a host, as a computation of the machine. -/
def making (host : Host) : Run GlobalScope := do
  let properties ← step (properties host)
  let object ← step fun h => h.allocateHost ⟨.ordinary, properties⟩
  Run.onHeap (modify fun h => h.update object fun o => o.put "self" (.object object))
  let scope ← Run.onScopes Scopes.openGlobal
  pure ⟨object, scope⟩

theorem making_eq (host : Host) (s : Setting) (m : Machine) :
    making host s m = .ok (build m.heap m.scopes host).1
      { m with
        heap := (build m.heap m.scopes host).2.1
        scopes := (build m.heap m.scopes host).2.2 } := by
  unfold making build
  generalize properties host = table
  rfl

end GlobalScope

namespace Coupling

open GlobalScope (step)

variable {K : Coupling} {s s' : Setting} {w : K.Stage}

structure Globals (K : Coupling) (w : K.Stage) (g g' : GlobalScope) : Prop where
  object : K.Named w g.object g'.object
  scope : g.scope = g'.scope
  opened : K.Opened w g.scope

theorem Globals.later {v : K.Stage} {g g' : GlobalScope} (h : K.Globals w g g')
    (hl : K.Later w v) : K.Globals v g g' :=
  ⟨K.named hl _ _ h.object, h.scope, K.opened hl _ h.opened⟩

def Tables (K : Coupling) (w : K.Stage) : Table ScriptHost.Value → Table ScriptHost.Value → Prop :=
  Table.Matches (K.Value w)

theorem Tables.later {v : K.Stage} {t t' : Table ScriptHost.Value} (h : K.Tables w t t')
    (hl : K.Later w v) : K.Tables v t t' :=
  Table.Matches.mono (fun _ _ => Value.Matches.mono (K.named hl)) h

namespace Elementary

theorem make (hk : K.Elementary s s') {o o' : HeapObject} (ho : o.Matches (K.Named w) (K.Opened w) o') :
    K.Follows s s' w K.Value (step (GlobalScope.make o)) (step (GlobalScope.make o')) :=
  (hk.allocateHost ho).map fun _ _ _ _ hab _ hr => .object (K.named hr _ _ hab)

theorem makeOrdinary (hk : K.Elementary s s') {t t' : Table ScriptHost.Value} (ht : K.Tables w t t') :
    K.Follows s s' w K.Value (step (GlobalScope.make ⟨.ordinary, t⟩))
      (step (GlobalScope.make ⟨.ordinary, t'⟩)) :=
  hk.make (.of .ordinary ht)

theorem lend (hk : K.Elementary s s') (function : Native) :
    K.Follows s s' w K.Value (step (GlobalScope.lend function))
      (step (GlobalScope.lend function)) :=
  hk.make (.of .native .nil)

theorem lendAll (hk : K.Elementary s s') (functions : List (String × Native)) :
    K.Follows s s' w K.Tables (step (GlobalScope.lendAll functions))
      (step (GlobalScope.lendAll functions)) := by
  induction functions generalizing w with
  | nil => exact Follows.pure fun _ _ => .nil
  | cons first rest ih =>
    obtain ⟨name, function⟩ := first
    rw [GlobalScope.lendAll_cons, GlobalScope.step_bind]
    refine (hk.lend function).bind fun t ht v v' hv => ?_
    rw [GlobalScope.step_bind, GlobalScope.step_bind]
    refine ih.bind fun r hr vs vs' hvs => Follows.pure fun q hq => ?_
    exact Table.matches_cons name (Value.Matches.mono (K.named (K.trans hr hq)) hv) (hvs.later hq)

theorem env_matches (host : Host) : K.Tables w (GlobalScope.env host) (GlobalScope.env host) := by
  refine List.foldlRecOn (motive := fun t => K.Tables w t t) _ _ .nil fun t ht entry _ => ?_
  exact Table.Matches.put ht entry.1 (.primitive rfl)

theorem roleProperties (hk : K.Elementary s s') (host : Host) :
    K.Follows s s' w K.Tables (step (GlobalScope.roleProperties host))
      (step (GlobalScope.roleProperties host)) := by
  unfold GlobalScope.roleProperties
  cases host.role with
  | dedicated parent =>
    simp only [GlobalScope.step_bind, GlobalScope.step_pure]
    refine (hk.lend .postMessage).bind fun t _ v v' hv => Follows.pure fun q hq => ?_
    exact Table.matches_cons "postMessage" (Value.Matches.mono (K.named hq) hv)
      (Table.matches_cons "onmessage" (.primitive rfl) .nil)
  | shared name ports =>
    exact Follows.pure fun _ _ => Table.matches_cons "name" (.primitive rfl)
      (Table.matches_cons "onconnect" (.primitive rfl) .nil)

theorem properties (hk : K.Elementary s s') (host : Host) :
    K.Follows s s' w K.Tables (step (GlobalScope.properties host))
      (step (GlobalScope.properties host)) := by
  simp only [GlobalScope.properties, GlobalScope.step_bind, GlobalScope.step_pure]
  refine (hk.lendAll GlobalScope.console).bind fun a ha levels levels' hlevels => ?_
  refine (hk.makeOrdinary hlevels).bind fun b hb console console' hconsole => ?_
  refine (hk.lendAll GlobalScope.json).bind fun c hc codecs codecs' hcodecs => ?_
  refine (hk.makeOrdinary hcodecs).bind fun d hd json json' hjson => ?_
  refine (hk.makeOrdinary (env_matches host)).bind fun e he env env' henv => ?_
  refine (hk.lendAll GlobalScope.errors).bind fun f hf errors errors' herrors => ?_
  refine (hk.lend .close).bind fun g hg close close' hclose => ?_
  refine (hk.roleProperties host).bind fun i hi role role' hrole => Follows.pure fun j hj => ?_
  have hij := hj
  have hgj := K.trans hi hij
  have hfj := K.trans hg hgj
  have hej := K.trans hf hfj
  have hdj := K.trans he hej
  have hbj := K.trans hc (K.trans hd hdj)
  have hvalue {u : K.Stage} (hu : K.Later u j) {v v' : ScriptHost.Value} (hv : K.Value u v v') :
      K.Value j v v' := Value.Matches.mono (K.named hu) hv
  refine List.rel_append (List.rel_append (List.rel_append ?_ (herrors.later hfj)) ?_)
    (hrole.later hij)
  · exact Table.matches_cons "console" (hvalue hbj hconsole) (Table.matches_cons "JSON"
      (hvalue hdj hjson) (Table.matches_cons "env" (hvalue hej henv) .nil))
  · exact Table.matches_cons "location" (.primitive rfl) (Table.matches_cons "close"
      (hvalue hgj hclose) (Table.matches_cons "NaN" (.primitive rfl)
        (Table.matches_cons "Infinity" (.primitive rfl) .nil)))

theorem making (hk : K.Elementary s s')
    (hopen : ∀ w, K.Follows s s' w (fun v i j => i = j ∧ K.Opened v i)
      (Run.onScopes Scopes.openGlobal) (Run.onScopes Scopes.openGlobal)) (host : Host) :
    K.Follows s s' w K.Globals (GlobalScope.making host) (GlobalScope.making host) := by
  refine (hk.properties host).bind fun a ha ps ps' hps => ?_
  refine (hk.allocateHost (.of .ordinary hps)).bind fun b hb object object' hobject => ?_
  refine (hk.update b object object' _ _ hobject fun c hc o o' ho =>
    ho.put "self" (.object (K.named hc _ _ hobject))).bind fun c hc _ _ _ => ?_
  refine (hopen c).bind fun d hd i j hij => Follows.pure fun e he => ?_
  obtain ⟨rfl, hi⟩ := hij
  exact ⟨K.named (K.trans hc (K.trans hd he)) _ _ hobject, rfl, K.opened he _ hi⟩

end Elementary

end Coupling

end ScriptHost

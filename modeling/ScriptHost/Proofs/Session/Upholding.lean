import ScriptHost.Proofs.Heap.Upholding
import ScriptHost.Proofs.Run.Upholding
import ScriptHost.Proofs.Session.Environment
import ScriptHost.Proofs.Session.Stages

/-!
What holds of the heap of a worker all through a session.
-/

namespace ScriptHost

/-! ## The global scope -/

namespace GlobalScope

variable {α β : Type} {P : HeapObject → Prop} {Q : α → Prop} {R : β → Prop}

/-- A part of the global scope whose objects have a property, and what holds of its result. -/
def Builds (P : HeapObject → Prop) (Q : α → Prop) (x : Building α) : Prop :=
  ∀ h : Heap, (h.All fun _ o => P o) → ((x h).2.All fun _ o => P o) ∧ Q (x h).1

theorem Builds.pure {a : α} (ha : Q a) : Builds P Q (pure a : Building α) :=
  fun _ hh => ⟨hh, ha⟩

theorem Builds.bind {x : Building α} {f : α → Building β} (hx : Builds P Q x)
    (hf : ∀ a, Q a → Builds P R (f a)) : Builds P R (x >>= f) := by
  intro h hh
  obtain ⟨hmade, ha⟩ := hx h hh
  exact hf _ ha _ hmade

theorem builds_make {o : HeapObject} (ho : P o) : Builds P (fun _ => True) (make o) :=
  fun _ hh => ⟨Heap.All.allocateHost hh ho, trivial⟩

theorem nodup_env (host : Host) : (env host).keys.Nodup := by
  unfold env
  generalize List.mergeSort _ _ = entries
  refine entries.foldlRecOn (motive := fun t : Table Value => t.keys.Nodup) _ List.nodup_nil ?_
  exact fun t ht entry _ => Table.nodup_put ht _ _

def roleNames : Role → List String
  | .dedicated _ => ["postMessage", "onmessage"]
  | .shared _ _ => ["name", "onconnect"]

/-- The names in the global object, but for its name of itself. -/
def names (role : Role) : List String :=
  ["console", "JSON", "env"] ++ errors.map Prod.fst ++ ["location", "close", "NaN", "Infinity"]
    ++ roleNames role

theorem nodup_names (role : Role) : (names role).Nodup := by
  cases role with
  | dedicated parent =>
    show (["console", "JSON", "env"] ++ errors.map Prod.fst
      ++ ["location", "close", "NaN", "Infinity"] ++ ["postMessage", "onmessage"]).Nodup
    decide
  | shared name ports =>
    show (["console", "JSON", "env"] ++ errors.map Prod.fst
      ++ ["location", "close", "NaN", "Infinity"] ++ ["name", "onconnect"]).Nodup
    decide

section

variable (hnative : ∀ function, P ⟨.native function, []⟩)

include hnative

theorem builds_lend (function : Native) : Builds P (fun _ => True) (lend function) :=
  builds_make (hnative function)

theorem builds_lendAll (functions : List (String × Native)) :
    Builds P (fun t => t.keys = functions.map Prod.fst) (lendAll functions) := by
  induction functions with
  | nil => exact .pure rfl
  | cons first rest ih =>
    rw [lendAll_cons]
    refine (builds_lend hnative first.2).bind fun _ _ => ih.bind fun values hvalues => .pure ?_
    exact congrArg (first.1 :: ·) hvalues

theorem builds_roleProperties (host : Host) :
    Builds P (fun t => t.keys = roleNames host.role) (roleProperties host) := by
  unfold roleProperties
  cases host.role with
  | dedicated parent => exact (builds_lend hnative .postMessage).bind fun _ _ => .pure rfl
  | shared name ports => exact .pure rfl

variable (hordinary : ∀ t : Table Value, t.keys.Nodup → P ⟨.ordinary, t⟩)

include hordinary

theorem builds_properties (host : Host) :
    Builds P (fun t => t.keys = names host.role) (properties host) := by
  have hmethods {functions : List (String × Native)} (hfunctions : (functions.map Prod.fst).Nodup)
      (t : Table Value) (ht : t.keys = functions.map Prod.fst) :
      Builds P (fun _ => True) (make ⟨.ordinary, t⟩) :=
    builds_make (hordinary t (ht.symm ▸ hfunctions))
  refine (builds_lendAll hnative console).bind fun levels hlevels => ?_
  refine (hmethods (by decide) levels hlevels).bind fun _ _ => ?_
  refine (builds_lendAll hnative json).bind fun codecs hcodecs => ?_
  refine (hmethods (by decide) codecs hcodecs).bind fun _ _ => ?_
  refine (builds_make (hordinary _ (nodup_env host))).bind fun _ _ => ?_
  refine (builds_lendAll hnative errors).bind fun errors herrors => ?_
  refine (builds_lend hnative .close).bind fun _ _ => ?_
  refine (builds_roleProperties hnative host).bind fun role hrole => .pure ?_
  simp only [Table.keys] at herrors hrole
  simp only [Table.keys, List.map_append, herrors, hrole]
  rfl

theorem build_all (hput : ∀ o key value, P o → P (o.put key value)) {heap : Heap}
    (hh : heap.All fun _ o => P o) (scopes : Scopes) (host : Host) :
    (build heap scopes host).2.1.All fun _ o => P o := by
  obtain ⟨hmade, hkeys⟩ := builds_properties hnative hordinary host heap hh
  unfold build
  generalize properties host heap = made at hmade hkeys ⊢
  have hglobal := hordinary made.1 (hkeys.symm ▸ nodup_names host.role)
  have hobject := Heap.All.allocateHost hmade hglobal
  show (Heap.update _ _ fun o => o.put "self" _).All _
  exact Heap.All.update hobject _ fun _ o ho => hput o "self" _ ho

end

end GlobalScope

/-! ## Sessions -/

/-- What may happen to the heap of a worker does not end what holds of it. -/
structure Environment.Upholds (P : Heap → Prop) : Prop where
  build : ∀ {h : Heap} scopes host, P h → P (GlobalScope.build h scopes host).2.1
  tidied : ∀ {h : Heap} scopes roots live, P h → P (h.tidied scopes roots live)
  error : ∀ {h : Heap} kind message, P h → P (Heap.left (Heap.allocateError kind message) h)
  hostError : ∀ {h : Heap} kind message, P h → P (h.allocateHostError kind message).2
  program : ∀ {source : String} {body : Source.Program}, Source.parse source = .ok body →
    Run.Upholds P (Run.program body)
  message : ∀ {data : Option Json}, (∀ json ∈ data, ∃ payload, Json.ofBytes payload = .ok json) →
    Run.Upholds P (Run.dispatch "onmessage" (Environment.messageEvent data))
  connect : ∀ port, Run.Upholds P (Run.dispatch "onconnect" (Environment.connectEvent port))

namespace Environment.Upholds

variable {P : Heap → Prop} {e e' : Environment} {host host' : Host} {ps : List Posting}
  (hP : Environment.Upholds P)

include hP

theorem ensureGlobal (he : P e.heap) (host : Host) : P (e.ensureGlobal host).2.1.heap := by
  have hbuilt := hP.build e.scopes host he
  unfold Environment.ensureGlobal
  generalize GlobalScope.build e.heap e.scopes host = built at hbuilt ⊢
  split
  · exact he
  · exact hbuilt

theorem ready (he : P e.heap) (host : Host) :
    P ((e.ensureGlobal host).2.1.collectGarbage (e.ensureGlobal host).1).heap := by
  rw [collectGarbage_eq]
  exact hP.tidied _ _ _ (hP.ensureGlobal he host)

theorem parseFailure (he : P e.heap) (fault : Source.Fault) (line : Nat) :
    P (e.parseFailure fault line).2.heap := by
  have hleft := hP.error .grammar fault.message he
  unfold Environment.parseFailure
  unfold Heap.left at hleft
  cases hmade : Heap.allocateError .grammar fault.message e.heap with
  | ok value heap =>
    rw [hmade] at hleft
    exact hleft
  | error reason heap =>
    rw [hmade] at hleft
    exact hleft

omit hP in
theorem execute {x : Run Value} (hx : Run.Upholds P x) (he : P e.heap) (host : Host) (s : Setting) :
    P (e.execute host fun m => Run.finish (x s m)).2.1.heap := by
  show P (Run.finish (x s (.start e.heap e.scopes e.pending host))).2.heap
  rw [Run.finish_left]
  exact hx s _ he

theorem stage (he : P e.heap) (h : Stage e host ps e' host') : P e'.heap := by
  cases h with
  | ensured => exact hP.ensureGlobal he host
  | created hcreate =>
    obtain ⟨-, -, rfl⟩ := createError_ok hcreate
    exact hP.hostError _ _ he
  | injected hinject =>
    obtain ⟨-, -, rfl⟩ := inject_ok hinject
    exact he
  | ran source oversight =>
    unfold Environment.run
    cases hparse : Source.parse source.text with
    | error fault => exact hP.parseFailure (hP.ready he host) fault _
    | ok program => exact execute (hP.program hparse) (hP.ready he host) _ _
  | messaged oversight data hdata => exact execute (hP.message hdata) (hP.ready he host) _ _
  | @connected port host' oversight _ => exact execute (hP.connect port) (hP.ready he host') _ _

theorem after {s : Session} (hs : P s.worker.environment.heap) (clocks : Nat → Nat → Nat)
    (turns : List Turn) : P (s.after clocks turns).worker.environment.heap := by
  induction turns generalizing s clocks with
  | nil => exact hs
  | cons t turns ih =>
    have hturn := (s.advances_turn (clocks 0) t).stages.keep
      (P := fun _ e _ => P e.heap) (fun h he => hP.stage he h) [] hs
    exact ih hturn _

end Environment.Upholds

end ScriptHost

import ScriptHost.Proofs.Coupling.Basic
import ScriptHost.Proofs.Heap.Writes
import ScriptHost.Run.Evaluator

/-!
What a coupling has to keep: the few ways in which a script changes its surroundings. The steps on
the heap are made of smaller ones, and it is enough to keep those.
-/

namespace ScriptHost

open Run (onHeap onScopes onHost)

/-- The number of the port that the function posts to. -/
def HeapObject.port? (o : HeapObject) : Option Nat :=
  match o.kind with
  | .native (.portPostMessage port) => some port
  | _ => none

def Heap.port? (h : Heap) (function : Value) : Option Nat :=
  function.object?.bind fun id => (h.object id).port?

def Host.ports? (h : Host) : Option (Array (Channel Json)) :=
  match h.role with
  | .shared _ ports => some ports
  | .dedicated _ => none

def Host.withPort (h : Host) (port : Nat) (channel : Channel Json) : Host :=
  match h with
  | ⟨location, env, log, closing, wrappers, .shared name ports⟩ =>
      ⟨location, env, log, closing, wrappers, .shared name (ports.setIfInBounds port channel)⟩
  | h => h

/-- A change to the host that neither touches its ports nor depends on them, and wraps nothing. -/
structure Host.Aside (f : Host → Host) : Prop where
  ports : ∀ h, (f h).ports? = h.ports?
  wrappers : ∀ h, (f h).wrappers = h.wrappers
  withPort : ∀ h port channel, f (h.withPort port channel) = (f h).withPort port channel

theorem Host.aside_writeLog (event : LogEvent) : Aside fun h => h.writeLog event := by
  refine ⟨fun _ => rfl, fun _ => rfl, fun h _ _ => ?_⟩
  obtain ⟨location, env, log, closing, wrappers, role⟩ := h
  cases role <;> rfl

theorem Host.aside_close : Aside Host.close := by
  refine ⟨fun _ => rfl, fun _ => rfl, fun h _ _ => ?_⟩
  obtain ⟨location, env, log, closing, wrappers, role⟩ := h
  cases role <;> rfl

theorem Host.aside_postToParent (message : Json) : Aside fun h => h.postToParent message := by
  refine ⟨fun h => ?_, fun h => ?_, fun h _ _ => ?_⟩ <;>
    obtain ⟨location, env, log, closing, wrappers, role⟩ := h <;> cases role <;> rfl

/-- A call of the function that posts to a port. -/
def Run.portCall (port : Nat) (function : Value) (args : List Value) : Run Value := do
  record function (.portPostMessage port) args
  callNative (.portPostMessage port) args

/-- A charge that the budget does not allow. -/
def Heap.Refuses (h : Heap) (grow release : Nat) : Prop :=
  release < grow ∧ h.maxSlots ≠ 0 ∧ h.maxSlots < h.used + grow - release

namespace Run

variable {α β : Type}

theorem onHeap_pure (a : α) : onHeap (pure a) = pure a := rfl

theorem onHeap_get : onHeap get = heap := rfl

theorem onHeap_bind (x : Heap.Step α) (f : α → Heap.Step β) :
    onHeap (x >>= f) = onHeap x >>= fun a => onHeap (f a) := by
  funext s m
  cases hx : x m.heap with
  | ok a h =>
    have hleft : (x >>= f) m.heap = f a h := by
      change EStateM.bind x f m.heap = _
      rw [EStateM.bind, hx]
    have hright : onHeap x s m = .ok a { m with heap := h } := by rw [onHeap, hx]
    rw [bind_ok hright, onHeap, onHeap, hleft]
  | error e h =>
    have hleft : (x >>= f) m.heap = .error e h := by
      change EStateM.bind x f m.heap = _
      rw [EStateM.bind, hx]
    have hright : onHeap x s m = .error (.terminated e) ({ m with heap := h }.halt e) := by
      rw [onHeap, hx]
    rw [bind_error hright, onHeap, hleft]

theorem onHeap_map (f : α → β) (x : Heap.Step α) : onHeap (f <$> x) = f <$> onHeap x := by
  rw [map_eq_pure_bind, map_eq_pure_bind, onHeap_bind]
  rfl

theorem onHeap_ok {α : Type} {x : Heap.Step α} {m : Machine} {a : α} {h : Heap}
    (hx : x m.heap = .ok a h) (s : Setting) : onHeap x s m = .ok a { m with heap := h } := by
  rw [onHeap, hx]

theorem onHeap_error {α : Type} {x : Heap.Step α} {m : Machine} {reason : TerminationReason}
    {h : Heap} (hx : x m.heap = .error reason h) (s : Setting) :
    onHeap x s m = .error (.terminated reason) ({ m with heap := h }.halt reason) := by
  rw [onHeap, hx]

theorem onHeap_charge_refused {grow release : Nat} {m : Machine}
    (h : m.heap.Refuses grow release) (s : Setting) :
    onHeap (Heap.charge grow release) s m =
      .error (.terminated .memoryLimit) (m.halt .memoryLimit) := by
  have hcharge : Heap.charge grow release m.heap = .error .memoryLimit m.heap := if_pos h
  rw [onHeap, hcharge]

theorem onHeap_charge_allowed {grow release : Nat} {m : Machine}
    (h : ¬ m.heap.Refuses grow release) (s : Setting) :
    onHeap (Heap.charge grow release) s m =
      .ok () { m with heap := { m.heap with used := m.heap.used + grow - release } } := by
  have hcharge : Heap.charge grow release m.heap =
      .ok () { m.heap with used := m.heap.used + grow - release } := if_neg h
  rw [onHeap, hcharge]

end Run

namespace Coupling

/-- The charges to a budget and the changes to a heap are kept one by one. -/
structure Elementary (K : Coupling) (s s' : Setting) : Prop where
  callDepth : s.maxCallDepth = s'.maxCallDepth
  charge : ∀ w grow release, K.Follows s s' w K.Same (onHeap (Heap.charge grow release))
    (onHeap (Heap.charge grow release))
  update : ∀ w a b f g, K.Named w a b →
    (∀ v, K.Later w v → ∀ o o', o.Matches (K.Named v) (K.Opened v) o' →
      (f o).Matches (K.Named v) (K.Opened v) (g o')) →
    K.Follows s s' w K.Same (onHeap (modify fun h => h.update a f))
      (onHeap (modify fun h => h.update b g))
  release : ∀ w n, K.Follows s s' w K.Same (onHeap (modify fun h => { h with used := h.used - n }))
    (onHeap (modify fun h => { h with used := h.used - n }))
  place : ∀ w o o' n, o.Matches (K.Named w) (K.Opened w) o' →
    K.Follows s s' w K.Named (onHeap (modifyGet fun h => h.place o n))
      (onHeap (modifyGet fun h => h.place o' n))
  openChild : ∀ w kind i, K.Opened w i →
    K.Follows s s' w (fun v i j => i = j ∧ K.Opened v i)
      (onScopes fun scopes => scopes.openChild kind i)
      (onScopes fun scopes => scopes.openChild kind i)
  bind : ∀ w i name b b', K.Opened w i → Binding.Matches (K.Named w) b b' →
    K.Follows s s' w K.Same (Run.bind i name b) (Run.bind i name b')
  host : ∀ w f, K.Follows s s' w K.Same (onHost f) (onHost f)
  record : ∀ {w f f' vs vs'} port, K.Value w f f' → List.Forall₂ (K.Value w) vs vs' →
    K.Follows s s' w K.Same (Run.record f (.portPostMessage port) vs)
      (Run.record f' (.portPostMessage port) vs')
  safePoint : ∀ w, K.Follows s s' w K.Same Run.safePoint Run.safePoint
  repeatWhile : ∀ w x y, K.Follows s s' w K.Same x y →
    K.Follows s s' w K.Same (Run.repeatWhile x) (Run.repeatWhile y)

/-- Scripts make no functions that post to ports, and reach the ports through them only. -/
structure Keeps (K : Coupling) (s s' : Setting) : Prop where
  callDepth : s.maxCallDepth = s'.maxCallDepth
  allocate : ∀ {w o o'}, o.port? = none → o.Matches (K.Named w) (K.Opened w) o' →
    K.Follows s s' w K.Named (onHeap (Heap.allocate o)) (onHeap (Heap.allocate o'))
  setProperty : ∀ {w a b v v'}, K.Named w a b → ∀ key, K.Value w v v' →
    K.Follows s s' w K.Same (onHeap (Heap.setProperty a key v)) (onHeap (Heap.setProperty b key v'))
  setElement : ∀ {w a b v v'}, K.Named w a b → ∀ index, K.Value w v v' →
    K.Follows s s' w K.Same (onHeap (Heap.setElement a index v))
      (onHeap (Heap.setElement b index v'))
  setLength : ∀ {w a b}, K.Named w a b → ∀ length,
    K.Follows s s' w K.Same (onHeap (Heap.setLength a length)) (onHeap (Heap.setLength b length))
  pushElements : ∀ {w a b vs vs'}, K.Named w a b → List.Forall₂ (K.Value w) vs vs' →
    K.Follows s s' w K.Same (onHeap (Heap.pushElements a vs)) (onHeap (Heap.pushElements b vs'))
  popElement : ∀ {w a b}, K.Named w a b →
    K.Follows s s' w K.Value (onHeap (Heap.popElement a)) (onHeap (Heap.popElement b))
  openChild : ∀ w kind i, K.Opened w i →
    K.Follows s s' w (fun v i j => i = j ∧ K.Opened v i)
      (onScopes fun scopes => scopes.openChild kind i)
      (onScopes fun scopes => scopes.openChild kind i)
  bind : ∀ w i name b b', K.Opened w i → Binding.Matches (K.Named w) b b' →
    K.Follows s s' w K.Same (Run.bind i name b) (Run.bind i name b')
  host : ∀ w f, Host.Aside f → K.Follows s s' w K.Same (onHost f) (onHost f)
  portCall : ∀ {w f f' vs vs'} port, K.Value w f f' → List.Forall₂ (K.Value w) vs vs' →
    ∀ m m', K.State w m m' → m.heap.port? f = some port → m'.heap.port? f' = some port →
    K.Ends w K.Value (Run.portCall port f vs s m) (Run.portCall port f' vs' s' m')
  safePoint : ∀ w, K.Follows s s' w K.Same Run.safePoint Run.safePoint
  repeatWhile : ∀ w x y, K.Follows s s' w K.Same x y →
    K.Follows s s' w K.Same (Run.repeatWhile x) (Run.repeatWhile y)

variable {K : Coupling} {s s' : Setting} {w : K.Stage} {α β γ δ : Type}

namespace Follows

theorem heap {T : K.Stage → γ → δ → Prop} {f : Heap → Run γ} {g : Heap → Run δ}
    (h : ∀ v, K.Later w v → ∀ h h', h.Matches (K.Named v) (K.Opened v) h' →
      K.Follows s s' v T (f h) (g h')) :
    K.Follows s s' w T (Run.heap >>= f) (Run.heap >>= g) :=
  fun v hv m m' hst => h v hv m.heap m'.heap (K.heap hst) v (K.refl v) m m' hst

theorem object_matches (ids : K.Stage → ObjectId → ObjectId → Prop) (hids : ids = K.Named)
    {x y : Run ObjectId} (h : K.Follows s s' w ids x y) :
    K.Follows s s' w K.Value (.object <$> x) (.object <$> y) :=
  h.map fun _ _ _ _ hab _ hu => .object (K.named hu _ _ (hids ▸ hab))

theorem skip {a : Unit} : K.Follows s s' w K.Same (Pure.pure a) (Pure.pure a) :=
  pure fun _ _ => rfl

theorem repeatFor {x y : Run Bool} (hstarved : ∀ v m m', K.State v m m' →
      K.Over v (some (.starved, m)) (some (.starved, m')))
    (h : K.Follows s s' w K.Same x y) (rounds : Nat) :
    K.Follows s s' w K.Same (Run.repeatFor x rounds) (Run.repeatFor y rounds) := by
  induction rounds generalizing w with
  | zero => exact fun v _ m m' hst => .final (K.refl v) (hstarved v m m' hst)
  | succ rounds ih =>
    refine h.bind fun v hv goesOn goesOn' hgoes => ?_
    obtain rfl : goesOn = goesOn' := hgoes
    split
    · exact ih (h.later hv)
    · exact skip

theorem repeatWhile {x y : Run Bool} (hhorizon : s.horizon = s'.horizon)
    (hpolls : ∀ v m m', K.State v m m' → m.polls = m'.polls)
    (hstarved : ∀ v m m', K.State v m m' → K.Over v (some (.starved, m)) (some (.starved, m')))
    (hsafe : ∀ v, K.Follows s s' v K.Same Run.safePoint Run.safePoint)
    (h : K.Follows s s' w K.Same x y) :
    K.Follows s s' w K.Same (Run.repeatWhile x) (Run.repeatWhile y) := by
  intro v hv m m' hst
  unfold Run.repeatWhile
  rw [hhorizon, hpolls v m m' hst]
  have hround := (hsafe w).bind fun u hu _ _ _ => h.later hu
  exact hround.repeatFor hstarved _ v hv m m' hst

end Follows

/-! ## Steps made of smaller ones -/

namespace Elementary

variable {o o' : HeapObject} {a b : ObjectId} {v v' : ScriptHost.Value}

theorem allocate (hk : K.Elementary s s') (ho : o.Matches (K.Named w) (K.Opened w) o') :
    K.Follows s s' w K.Named (onHeap (Heap.allocate o)) (onHeap (Heap.allocate o')) := by
  simp only [Heap.allocate, Run.onHeap_bind, ho.slots_eq]
  exact (hk.charge w _ _).bind fun u hu _ _ _ =>
    hk.place u _ _ _ (ho.mono (K.named hu) (K.opened hu))

theorem allocateHost (hk : K.Elementary s s') (ho : o.Matches (K.Named w) (K.Opened w) o') :
    K.Follows s s' w K.Named (onHeap (modifyGet fun h => h.allocateHost o))
      (onHeap (modifyGet fun h => h.allocateHost o')) := by
  simp only [Heap.allocateHost, ho.slots_eq]
  exact hk.place w _ _ _ ho

theorem allocateError (hk : K.Elementary s s') (kind : ErrorKind) (message : String) :
    K.Follows s s' w K.Value (onHeap (Heap.allocateError kind message))
      (onHeap (Heap.allocateError kind message)) := by
  simp only [Heap.allocateError, Run.onHeap_map]
  exact Follows.object_matches _ rfl (hk.allocate (Heap.errorObject_matches kind message))

theorem elim_slots_eq {R : ObjectId → ObjectId → Prop} {x y : Option ScriptHost.Value}
    (h : Option.Rel (Value.Matches R) x y) :
    x.elim 0 Value.slots = y.elim 0 Value.slots := by
  cases h with
  | some hv => exact hv.slots_eq
  | none => rfl

theorem setProperty (hk : K.Elementary s s') (hab : K.Named w a b) (key : String)
    (hv : K.Value w v v') :
    K.Follows s s' w K.Same (onHeap (Heap.setProperty a key v))
      (onHeap (Heap.setProperty b key v')) := by
  simp only [Heap.setProperty, Run.onHeap_bind, Run.onHeap_get]
  refine Follows.heap fun u hu h h' hm => ?_
  have hab' := K.named hu _ _ hab
  rw [elim_slots_eq ((hm.object _ _ hab').get?_rel key), Value.Matches.slots_eq hv]
  refine (hk.charge u _ _).bind fun t ht _ _ _ => ?_
  refine hk.update t _ _ _ _ (K.named ht _ _ hab') fun r hr o o' ho => ho.put key ?_
  exact Value.Matches.mono (K.named (K.trans hu (K.trans ht hr))) hv

theorem updateItems (hk : K.Elementary s s') (hab : K.Named w a b) {f g : Array ScriptHost.Value →
    Array ScriptHost.Value}
    (hfg : ∀ u, K.Later w u → ∀ xs ys, HeapObject.ItemsMatch (K.Named u) xs ys →
      HeapObject.ItemsMatch (K.Named u) (f xs) (g ys)) :
    K.Follows s s' w K.Same (onHeap (modify fun h => h.update a fun o => o.mapItems f))
      (onHeap (modify fun h => h.update b fun o => o.mapItems g)) :=
  hk.update w _ _ _ _ hab fun u hu _ _ ho => ho.mapItems (hfg u hu)

theorem setElement (hk : K.Elementary s s') (hab : K.Named w a b) (index : Nat) (hv : K.Value w v v') :
    K.Follows s s' w K.Same (onHeap (Heap.setElement a index v))
      (onHeap (Heap.setElement b index v')) := by
  simp only [Heap.setElement, Run.onHeap_bind, Run.onHeap_get]
  refine Follows.heap fun u hu h h' hm => ?_
  have hab' := K.named hu _ _ hab
  have hrel := (hm.object _ _ hab').items?_rel
  generalize (h.object a).items? = xs, (h'.object b).items? = ys at hrel ⊢
  cases hrel with
  | none => exact Follows.skip
  | @some xs ys hitems =>
    have hchange : Heap.elementChange xs index v = Heap.elementChange ys index v' := by
      have hitem := hitems.getElem?_rel index
      simp only [Heap.elementChange, hitems.size_eq, Value.Matches.slots_eq hv]
      generalize xs[index]? = x, ys[index]? = y at hitem ⊢
      cases hitem with
      | some hold => simp only [hold.slots_eq]
      | none => rfl
    simp only [hchange, Run.onHeap_bind]
    refine (hk.charge u _ _).bind fun t ht _ _ _ => ?_
    refine hk.updateItems (K.named ht _ _ hab') fun r hr zs ws hzw => ?_
    exact (hzw.padded _).set _ (Value.Matches.mono (K.named (K.trans hu (K.trans ht hr))) hv)

theorem setLength (hk : K.Elementary s s') (hab : K.Named w a b) (length : Nat) :
    K.Follows s s' w K.Same (onHeap (Heap.setLength a length))
      (onHeap (Heap.setLength b length)) := by
  simp only [Heap.setLength, Run.onHeap_bind, Run.onHeap_get]
  refine Follows.heap fun u hu h h' hm => ?_
  have hab' := K.named hu _ _ hab
  have hrel := (hm.object _ _ hab').items?_rel
  generalize (h.object a).items? = xs, (h'.object b).items? = ys at hrel ⊢
  cases hrel with
  | none => exact Follows.skip
  | @some xs ys hitems =>
    have hchange : Heap.lengthChange xs length = Heap.lengthChange ys length := by
      simp only [Heap.lengthChange, hitems.size_eq,
        slotsOf_eq (List.forall₂_drop length hitems)]
    simp only [hchange, Run.onHeap_bind]
    refine (hk.charge u _ _).bind fun t ht _ _ _ => ?_
    exact hk.updateItems (K.named ht _ _ hab') fun r hr zs ws hzw => (hzw.padded _).take _

theorem pushElements (hk : K.Elementary s s') (hab : K.Named w a b) {vs vs' : List ScriptHost.Value}
    (hvs : List.Forall₂ (K.Value w) vs vs') :
    K.Follows s s' w K.Same (onHeap (Heap.pushElements a vs))
      (onHeap (Heap.pushElements b vs')) := by
  simp only [Heap.pushElements, Run.onHeap_bind, Run.onHeap_get, Run.onHeap_pure]
  rw [slotsOf_eq hvs]
  refine (hk.charge w _ _).bind fun u hu _ _ _ => ?_
  refine (hk.updateItems (K.named hu _ _ hab) fun t ht xs ys hxy =>
    hxy.appendList (hvs.imp fun _ _ => Value.Matches.mono (K.named (K.trans hu ht)))).bind
      fun t ht _ _ _ => ?_
  refine Follows.heap fun r hr h h' hm => Follows.pure fun _ _ => ?_
  have hrel := (hm.object _ _ (K.named (K.trans hu (K.trans ht hr)) _ _ hab)).items?_rel
  generalize (h.object a).items? = xs, (h'.object b).items? = ys at hrel ⊢
  cases hrel with
  | none => rfl
  | some hitems => exact hitems.size_eq

theorem popElement (hk : K.Elementary s s') (hab : K.Named w a b) :
    K.Follows s s' w K.Value (onHeap (Heap.popElement a)) (onHeap (Heap.popElement b)) := by
  simp only [Heap.popElement, Run.onHeap_bind, Run.onHeap_get]
  refine Follows.heap fun u hu h h' hm => ?_
  have hab' := K.named hu _ _ hab
  have hlast : Option.Rel (Value.Matches (K.Named u)) ((h.object a).items?.bind Array.back?)
      ((h'.object b).items?.bind Array.back?) := by
    have hrel := (hm.object _ _ hab').items?_rel
    generalize (h.object a).items? = xs, (h'.object b).items? = ys at hrel ⊢
    cases hrel with
    | none => exact .none
    | some hitems => exact hitems.back?_rel
  generalize (h.object a).items?.bind Array.back? = x,
    (h'.object b).items?.bind Array.back? = y at hlast ⊢
  cases hlast with
  | none => exact Follows.pure fun _ _ => .primitive rfl
  | some hv =>
    simp only [Run.onHeap_bind, hv.slots_eq]
    refine (hk.updateItems hab' fun _ _ _ _ hzw => hzw.pop).bind fun t ht _ _ _ => ?_
    refine (hk.release t _).bind fun r hr _ _ _ => Follows.pure fun _ hq => ?_
    exact hv.mono (K.named (K.trans ht (K.trans hr hq)))

end Elementary

namespace Keeps

variable {a b : ObjectId} {v v' : ScriptHost.Value}

theorem allocateError (hk : K.Keeps s s') (kind : ErrorKind) (message : String) :
    K.Follows s s' w K.Value (onHeap (Heap.allocateError kind message))
      (onHeap (Heap.allocateError kind message)) := by
  simp only [Heap.allocateError, Run.onHeap_map]
  exact Follows.object_matches _ rfl (hk.allocate rfl (Heap.errorObject_matches kind message))

theorem writeProperty (hk : K.Keeps s s') (hab : K.Named w a b) (key : String)
    (hv : K.Value w v v') :
    K.Follows s s' w K.Same (onHeap (Heap.writeProperty a key v))
      (onHeap (Heap.writeProperty b key v')) := by
  simp only [Heap.writeProperty, Run.onHeap_bind, Run.onHeap_get]
  refine Follows.heap fun u hu h h' hm => ?_
  have hab' := K.named hu _ _ hab
  have hv' : K.Value u v v' := Value.Matches.mono (K.named hu) hv
  have hset : K.Follows s s' u K.Same (onHeap (Heap.setProperty a key v >>= fun _ => pure true))
      (onHeap (Heap.setProperty b key v' >>= fun _ => pure true)) := by
    simp only [Run.onHeap_bind]
    exact (hk.setProperty hab' key hv').bind fun _ _ _ _ _ => Follows.pure fun _ _ => rfl
  have hrefuse : K.Follows s s' u K.Same (onHeap (pure false)) (onHeap (pure false)) :=
    Follows.pure fun _ _ => rfl
  have hrel := (hm.object _ _ hab').items?_rel
  generalize (h.object a).items? = xs, (h'.object b).items? = ys at hrel ⊢
  cases hrel with
  | none => exact hset
  | some hitems =>
    simp only [hitems.size_eq, hm.toNumber_eq hv']
    split
    · split
      · split
        · simp only [Run.onHeap_bind]
          exact (hk.setLength hab' _).bind fun _ _ _ _ _ => Follows.pure fun _ _ => rfl
        · exact hrefuse
      · exact hrefuse
    · split
      · split
        · simp only [Run.onHeap_bind]
          exact (hk.setElement hab' _ hv').bind fun _ _ _ _ _ => Follows.pure fun _ _ => rfl
        · exact hrefuse
      · exact hset

end Keeps

end Coupling

end ScriptHost

import ScriptHost.Proofs.Coupling.Law

/-!
What becomes of a port is no matter to a run. It does the same when the receiver has been dropped.
-/

namespace ScriptHost

namespace Host

/-- The host once the receiver of a port has been dropped. -/
def muted (port : Nat) (h : Host) : Host :=
  h.withPort port ⟨#[], true⟩

variable (port : Nat) (h : Host)

theorem logged_muted : (h.muted port).logged = h.logged := by
  obtain ⟨location, env, log, closing, wrappers, role⟩ := h
  cases role <;> rfl

theorem postToPort_muted (other : Nat) (message : Json) :
    (h.muted port).postToPort other message = (h.postToPort other message).muted port := by
  obtain ⟨location, env, log, closing, wrappers, role⟩ := h
  cases role with
  | dedicated => rfl
  | shared name ports =>
      have hports : (ports.setIfInBounds port ⟨#[], true⟩).modify other
            (fun channel => (channel.send message).2) =
          (ports.modify other fun channel => (channel.send message).2).setIfInBounds port
            ⟨#[], true⟩ := by
        refine Array.ext_getElem? fun i => ?_
        rw [Array.getElem?_modify, Array.getElem?_setIfInBounds, Array.getElem?_setIfInBounds,
          Array.getElem?_modify, Array.size_modify]
        by_cases hi : port = i
        · rw [if_pos hi, if_pos hi]
          split <;> split <;> rfl
        · rw [if_neg hi, if_neg hi]
      exact congrArg (fun ports => Host.mk location env log closing wrappers (.shared name ports))
        hports

end Host

def World.muted (port : Nat) (w : World) : World :=
  { w with host := w.host.muted port }

def Posting.muted (port : Nat) (p : Posting) : Posting :=
  { p with world := p.world.muted port }

def Machine.muted (port : Nat) (m : Machine) : Machine :=
  { m with
    host := m.host.muted port
    halts := m.halts.map fun halt => { halt with world := halt.world.muted port }
    posts := m.posts.map (Posting.muted port) }

namespace Coupling

/-- A run and the same with a port muted, which agree even on what they keep for the record. -/
def muting (port : Nat) : Coupling where
  Stage := Unit
  Later _ _ := True
  Named _ := Eq
  Opened _ _ := True
  State _ m m' := m' = m.muted port
  Over _ p q := ∃ e m b, p = some (e, m) ∧ q = some (e, (m.muted port).withBooks b)
  refl _ := trivial
  trans _ _ := trivial
  named := @Machine.Law.named_same
  opened _ _ := id
  unique := Machine.Law.unique_same
  heap h := h ▸ Heap.matches_refl _
  scopes h := h ▸ Scopes.matches_refl _
  books h := h ▸ Machine.Books.matches_refl _
  still h hb := by rw [h, hb.eq_of_eq]; rfl
  over_grow h hp hq := by
    obtain ⟨e, m, b, rfl, rfl⟩ := h
    exact ⟨e, m, b, hp.resolve_left (Option.some_ne_none _),
      hq.resolve_left (Option.some_ne_none _)⟩
  over_still b b' h := by
    obtain ⟨e, m, c, rfl, rfl⟩ := h
    exact ⟨e, m.withBooks b, b', rfl, rfl⟩

variable {port : Nat} {s : Setting} {w : Unit} {α : Type} {T : Unit → α → α → Prop}

theorem muting_ends (r : EStateM.Result Abrupt Machine α) (hT : ∀ a, T () a a) :
    (muting port).Ends w T r (Run.mapState (Machine.muted port) r) := by
  cases r with
  | ok a m => exact .ok (v := ()) trivial rfl (hT a)
  | error e m =>
      have hover (he : e.isFinal = true) :
          (muting port).Over () (Run.final? (.error e m : EStateM.Result Abrupt Machine α))
            (Run.final? (.error e (m.muted port) : EStateM.Result Abrupt Machine α)) := by
        rw [Run.final?, Run.final?, if_pos he, if_pos he]
        exact ⟨e, m, (m.muted port).books, rfl, rfl⟩
      cases e with
      | thrown v => exact .abrupt (v := ()) trivial rfl (.thrown (.refl_eq v))
      | returned v => exact .abrupt (v := ()) trivial rfl (.returned (.refl_eq v))
      | broke => exact .abrupt (v := ()) trivial rfl .broke
      | continued => exact .abrupt (v := ()) trivial rfl .continued
      | terminated reason => exact .final (v := ()) trivial (hover rfl)
      | starved => exact .final (v := ()) trivial (hover rfl)

theorem muting_follows {x : Run α}
    (hx : ∀ m, x s (m.muted port) = Run.mapState (Machine.muted port) (x s m))
    (hT : ∀ a, T () a a) : (muting port).Follows s s w T x x := by
  rintro v - m _ rfl
  exact hx m ▸ muting_ends (x s m) hT

theorem onHeap_muted (x : Heap.Step α) (s : Setting) (m : Machine) :
    Run.onHeap x s (m.muted port) = Run.mapState (Machine.muted port) (Run.onHeap x s m) := by
  have hheap : (m.muted port).heap = m.heap := rfl
  unfold Run.onHeap
  rw [hheap]
  cases x m.heap <;> rfl

theorem muting_onHeap (x : Heap.Step α) (hT : ∀ a, T () a a) :
    (muting port).Follows s s w T (Run.onHeap x) (Run.onHeap x) :=
  muting_follows (onHeap_muted x s) hT

theorem safePoint_muted (s : Setting) (m : Machine) :
    Run.safePoint s (m.muted port) = Run.mapState (Machine.muted port) (Run.safePoint s m) := by
  have hpolls : (m.muted port).polls = m.polls := rfl
  have hpending : (m.muted port).pending = m.pending := rfl
  have hlogged : (m.muted port).host.logged = m.host.logged := m.host.logged_muted port
  unfold Run.safePoint
  rw [hpolls, hlogged]
  split
  · rfl
  · cases s.answer m.polls m.host.logged with
    | some reason => rfl
    | none =>
        dsimp only
        rw [hpending]
        cases m.pending <;> rfl

theorem complain_muted (complaint : Complaint) (s : Setting) (m : Machine) :
    (Run.complain complaint s (m.muted port) : EStateM.Result Abrupt Machine α) =
      Run.mapState (Machine.muted port) (Run.complain complaint s m) := by
  have hheap : (m.muted port).heap = m.heap := rfl
  rw [Run.complain_eq, Run.complain_eq, hheap]
  cases Heap.allocateError complaint.kind complaint.message m.heap <;> rfl

theorem portCall_muted (other : Nat) (function : ScriptHost.Value) (args : List ScriptHost.Value)
    (s : Setting) (m : Machine) :
    Run.portCall other function args s (m.muted port) =
      Run.mapState (Machine.muted port) (Run.portCall other function args s m) := by
  have hheap : (m.muted port).heap = m.heap := rfl
  rw [Run.portCall_eq, Run.portCall_eq, hheap]
  cases m.heap.toJson (args.head?.getD .undefined) with
  | ok message =>
      exact congrArg (fun host => EStateM.Result.ok ScriptHost.Value.undefined
        { (m.muted port).post other function args with host := host })
        (m.host.postToPort_muted port other message)
  | error error => exact complain_muted (.uncloneable error) s (m.post other function args)

theorem muting_safePoint (w : Unit) :
    (muting port).Follows s s w (muting port).Same Run.safePoint Run.safePoint :=
  muting_follows (safePoint_muted s) fun _ => rfl

theorem muting_keeps : (muting port).Keeps s s where
  callDepth := rfl
  allocate _ ho := by
    obtain rfl := HeapObject.Matches.eq_of_eq ho
    exact muting_onHeap _ fun _ => rfl
  setProperty hab key hv := by
    obtain rfl := hab
    obtain rfl := Value.Matches.eq_of_eq hv
    exact muting_onHeap _ fun _ => rfl
  setElement hab index hv := by
    obtain rfl := hab
    obtain rfl := Value.Matches.eq_of_eq hv
    exact muting_onHeap _ fun _ => rfl
  setLength hab length := by
    obtain rfl := hab
    exact muting_onHeap _ fun _ => rfl
  pushElements hab hvs := by
    obtain rfl := hab
    obtain rfl := Value.Matches.list_eq hvs
    exact muting_onHeap _ fun _ => rfl
  popElement hab := by
    obtain rfl := hab
    exact muting_onHeap _ Value.Matches.refl_eq
  openChild _ kind i _ := muting_follows (fun _ => rfl) fun _ => ⟨rfl, trivial⟩
  bind _ i name b b' _ hb := by
    obtain rfl := Binding.Matches.eq_of_eq hb
    exact muting_follows (fun _ => rfl) fun _ => rfl
  host _ f hf := by
    refine muting_follows (fun m => ?_) fun _ => rfl
    exact congrArg (fun host => EStateM.Result.ok () { m.muted port with host := host })
      (hf.withPort m.host port ⟨#[], true⟩)
  portCall other hf hvs := by
    obtain rfl := Value.Matches.eq_of_eq hf
    obtain rfl := Value.Matches.list_eq hvs
    rintro m _ rfl - -
    exact portCall_muted other _ _ s m ▸ muting_ends _ Value.Matches.refl_eq
  safePoint := muting_safePoint
  repeatWhile _ _ _ h := h.repeatWhile rfl (fun _ _ _ hst => hst ▸ rfl)
    (fun _ m _ hst => ⟨.starved, m, (m.muted port).books, rfl, hst ▸ rfl⟩) muting_safePoint

theorem muting_nests : (muting port).Nests s s := by
  refine Coupling.nests muting_keeps (fun _ _ _ hst => hst ▸ rfl) (fun _ _ _ hst => hst ▸ rfl)
    (fun _ _ _ hst => hst ▸ rfl) ?_
  rintro _ p q ⟨e, m, b, rfl, rfl⟩
  exact ⟨e, _, b, rfl, rfl⟩

theorem muting_task (port : Nat) (s : Setting) (m : Machine) (task : Task) :
    (muting port).Ends () (muting port).Value (task.run s m) (task.run s (m.muted port)) := by
  have hc : (muting port).Common s s () := ⟨muting_keeps, rfl, rfl, trivial⟩
  refine hc.taskAt muting_nests task rfl ?_
  rintro _ other - v - n _ rfl - -
  exact onHeap_muted (Environment.connectEvent other) s n ▸ muting_ends _ Value.Matches.refl_eq

end Coupling

/-- With the port muted, the run ends in the same way and has made the same of all the rest. -/
def Machine.Deaf (port : Nat) (run : Machine → Completion × Machine) : Prop :=
  ∀ m, ∃ b, run (m.muted port) = ((run m).1, ((run m).2.muted port).withBooks b)

theorem Task.deaf (port : Nat) (s : Setting) (task : Task) :
    Machine.Deaf port fun m => task.perform m s := by
  intro m
  have hends := Coupling.muting_task port s m task
  simp only [perform_eq]
  generalize task.run s m = x, task.run s (m.muted port) = y at hends
  cases hends with
  | @ok _ a b n n' _ hst hab =>
      obtain rfl := Value.Matches.eq_of_eq hab
      obtain rfl : n' = n.muted port := hst
      exact ⟨(n.muted port).books, rfl⟩
  | @abrupt _ e e' n n' _ hst he =>
      obtain rfl := Abrupt.Matches.eq_of_eq he
      obtain rfl : n' = n.muted port := hst
      refine ⟨(n.muted port).books, ?_⟩
      cases e <;> rfl
  | final _ hover =>
      obtain ⟨e, n, b, hx, hy⟩ := hover
      have he := Run.isFinal_of_final? hx
      obtain rfl := Run.final?_eq_some hx
      obtain rfl := Run.final?_eq_some hy
      refine ⟨b, ?_⟩
      cases e with
      | terminated => rfl
      | starved => rfl
      | _ => exact nomatch he

end ScriptHost

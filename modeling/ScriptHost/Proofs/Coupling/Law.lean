import ScriptHost.Proofs.Coupling.Lockstep

/-!
What every step of a script keeps of its machine, a whole run keeps. The run is coupled to itself.
-/

namespace ScriptHost

variable {α β : Type}

namespace Heap

/-- The heap that a step leaves behind, refused or not. -/
def left (x : Step α) (h : Heap) : Heap :=
  match x h with
  | .ok _ h => h
  | .error _ h => h

theorem left_map (f : α → β) (x : Step α) (h : Heap) : left (f <$> x) h = left x h := by
  simp only [left, Functor.map, EStateM.map]
  cases x h <;> rfl

theorem left_discard (x : Step α) (h : Heap) :
    left (do let _ ← x; pure () : Step Unit) h = left x h := by
  simp only [left, Bind.bind, EStateM.bind]
  cases x h <;> rfl

theorem left_bind {P : Heap → Prop} {x : Step α} {f : α → Step β} {h : Heap} (hx : P (left x h))
    (hf : ∀ a h, P h → P (left (f a) h)) : P (left (x >>= f) h) := by
  simp only [left, Bind.bind, EStateM.bind] at hx ⊢
  cases hstep : x h with
  | ok a h' => rw [hstep] at hx; exact hf a h' hx
  | error reason h' => rw [hstep] at hx; exact hx

end Heap

namespace Run

/-- The machine that a computation leaves behind, however it ends. -/
def left : EStateM.Result Abrupt Machine α → Machine
  | .ok _ m => m
  | .error _ m => m

theorem finish_left (r : EStateM.Result Abrupt Machine Value) : (finish r).2 = left r := by
  rcases r with _ | ⟨e, m⟩
  · rfl
  · cases e <;> rfl

theorem left_onHeap (x : Heap.Step α) (s : Setting) (m : Machine) :
    left (onHeap x s m) = { m with heap := Heap.left x m.heap } ∨
      ∃ reason, left (onHeap x s m) = { m with heap := Heap.left x m.heap }.halt reason := by
  unfold onHeap Heap.left
  cases x m.heap with
  | ok a h => exact .inl rfl
  | error reason h => exact .inr ⟨reason, rfl⟩

theorem complain_eq (complaint : Complaint) (s : Setting) (m : Machine) :
    (complain complaint : Run α) s m =
      match Heap.allocateError complaint.kind complaint.message m.heap with
      | .ok value heap => .error (.thrown value)
          { m.note (.text complaint.message) with heap := heap, throwLine := m.line }
      | .error reason heap => .error (.terminated reason)
          ({ m.note (.text complaint.message) with heap := heap }.halt reason) := by
  have hnoted (r : EStateM.Result TerminationReason Heap Value)
      (h : Heap.allocateError complaint.kind complaint.message m.heap = r) :
      Heap.allocateError complaint.kind complaint.message (m.note (.text complaint.message)).heap =
        r := h
  change (onHeap (Heap.allocateError complaint.kind complaint.message) >>= raise) s
    (m.note (.text complaint.message)) = _
  cases h : Heap.allocateError complaint.kind complaint.message m.heap with
  | ok value heap => rw [bind_ok (by rw [onHeap, hnoted _ h])]; rfl
  | error reason heap => rw [bind_error (by rw [onHeap, hnoted _ h])]

theorem cloneMessage_eq (value : Value) (s : Setting) (m : Machine) :
    cloneMessage value s m =
      match m.heap.toJson value with
      | .ok message => .ok message m
      | .error error => complain (.uncloneable error) s m := by
  unfold cloneMessage
  rw [bind_ok (rfl : heap s m = .ok m.heap m)]
  cases m.heap.toJson value <;> rfl

theorem portCall_eq (port : Nat) (function : Value) (args : List Value) (s : Setting)
    (m : Machine) :
    portCall port function args s m =
      match m.heap.toJson (args.head?.getD .undefined) with
      | .ok message => .ok .undefined
          { m.post port function args with host := m.host.postToPort port message }
      | .error error => complain (.uncloneable error) s (m.post port function args) := by
  have hcall : portCall port function args s m =
      (cloneMessage (args.head?.getD .undefined) >>= fun message => do
        onHost fun host => host.postToPort port message
        pure .undefined : Run Value) s (m.post port function args) := rfl
  have hclone := cloneMessage_eq (args.head?.getD .undefined) s (m.post port function args)
  change _ = match m.heap.toJson _ with | .ok _ => _ | .error _ => _ at hclone
  rw [hcall]
  cases h : m.heap.toJson (args.head?.getD .undefined) with
  | ok message =>
      rw [h] at hclone
      rw [bind_ok hclone]
      rfl
  | error error =>
      rw [h] at hclone
      dsimp only at hclone ⊢
      rw [complain_eq] at hclone ⊢
      split at hclone <;> exact bind_error hclone

theorem left_complain (complaint : Complaint) (s : Setting) (m : Machine) :
    let n := left (complain complaint s m : EStateM.Result Abrupt Machine α)
    n.heap = Heap.left (Heap.allocateError complaint.kind complaint.message) m.heap ∧
      n.scopes = m.scopes ∧ n.host = m.host ∧ n.posts = m.posts := by
  rw [complain_eq, Heap.left]
  cases Heap.allocateError complaint.kind complaint.message m.heap <;> exact ⟨rfl, rfl, rfl, rfl⟩

end Run

namespace Machine

/-- Calls of port functions are taken as a whole, since what is put on record is then sent. -/
structure Law (P : Machine → Prop) : Prop where
  books : ∀ m b, P m → P (m.withBooks b)
  nesting : ∀ m nesting, P m → P { m with nesting := nesting }
  polls : ∀ m polls, P m → P { m with polls := polls }
  halt : ∀ m reason, P m → P (m.halt reason)
  spend : ∀ m, P m → P { m with pending := none }
  allocate : ∀ m o, o.port? = none → P m →
    P { m with heap := Heap.left (Heap.allocate o) m.heap }
  write : ∀ m (w : Heap.Write) id, P m → P { m with heap := Heap.left (w.step id) m.heap }
  openChild : ∀ m kind i, P m → P { m with scopes := (m.scopes.openChild kind i).2 }
  bind : ∀ m i name b, P m → P { m with scopes := m.scopes.bind i name b }
  host : ∀ m f, Host.Aside f → P m → P { m with host := f m.host }
  portCall : ∀ s m port function args, m.heap.port? function = some port → P m →
    P (Run.left (Run.portCall port function args s m))

variable {P : Machine → Prop}

/-! Where no handle is replaced, every one has itself for its name at all times. -/

theorem Law.named_same {_ _ : Unit} (_ : True) (a b : ObjectId) : a = b → a = b := id

theorem Law.unique_same (_ : Unit) : Relator.BiUnique (Eq : ObjectId → ObjectId → Prop) :=
  ⟨fun _ _ _ h h' => h.trans h'.symm, fun _ _ _ h h' => h.symm.trans h'⟩

/-- A run and itself, over machines with a property. -/
def Law.itself (hl : Law P) : Coupling where
  Stage := Unit
  Later _ _ := True
  Named _ := Eq
  Opened _ _ := True
  State _ m m' := m = m' ∧ P m
  Over _ p q := ∃ e m, p = some (e, m) ∧ (∃ m', q = some (e, m')) ∧ P m
  refl _ := trivial
  trans _ _ := trivial
  named := @named_same
  opened _ _ := id
  unique := unique_same
  heap h := h.1 ▸ Heap.matches_refl _
  scopes h := h.1 ▸ Scopes.matches_refl _
  books h := h.1 ▸ Machine.Books.matches_refl _
  still h hb := ⟨by rw [h.1, hb.eq_of_eq], hl.books _ _ h.2⟩
  over_grow h hp hq := by
    obtain ⟨e, m, rfl, ⟨m', rfl⟩, hm⟩ := h
    exact ⟨e, m, hp.resolve_left nofun, ⟨m', hq.resolve_left nofun⟩, hm⟩
  over_still b b' h := by
    obtain ⟨e, m, rfl, ⟨m', rfl⟩, hm⟩ := h
    exact ⟨e, m.withBooks b, rfl, ⟨m'.withBooks b', rfl⟩, hl.books m b hm⟩

namespace Law

variable {s : Setting} {w : Unit} {T : Unit → α → α → Prop}

theorem ends (hl : Law P) {r : EStateM.Result Abrupt Machine α} (hr : P (Run.left r))
    (hT : ∀ a, T () a a) : hl.itself.Ends w T r r := by
  cases r with
  | ok a m => exact .ok (v := ()) trivial ⟨rfl, hr⟩ (hT a)
  | error e m =>
      have hover (he : e.isFinal = true) :
          hl.itself.Over () (Run.final? (.error e m : EStateM.Result Abrupt Machine α))
            (Run.final? (.error e m : EStateM.Result Abrupt Machine α)) := by
        rw [Run.final?, if_pos he]
        exact ⟨e, m, rfl, ⟨m, rfl⟩, hr⟩
      cases e with
      | thrown v => exact .abrupt (v := ()) trivial ⟨rfl, hr⟩ (.thrown (.refl_eq v))
      | returned v => exact .abrupt (v := ()) trivial ⟨rfl, hr⟩ (.returned (.refl_eq v))
      | broke => exact .abrupt (v := ()) trivial ⟨rfl, hr⟩ .broke
      | continued => exact .abrupt (v := ()) trivial ⟨rfl, hr⟩ .continued
      | terminated reason => exact .final (v := ()) trivial (hover rfl)
      | starved => exact .final (v := ()) trivial (hover rfl)

theorem follows (hl : Law P) {x : Run α} (hx : ∀ m, P m → P (Run.left (x s m)))
    (hT : ∀ a, T () a a) : hl.itself.Follows s s w T x x := by
  rintro v - m _ ⟨rfl, hm⟩
  exact hl.ends (hx m hm) hT

theorem left_onHeap (hl : Law P) {m : Machine} {x : Heap.Step α}
    (hx : P { m with heap := Heap.left x m.heap }) : P (Run.left (Run.onHeap x s m)) := by
  rcases Run.left_onHeap x s m with hleft | ⟨reason, hleft⟩
  · exact hleft ▸ hx
  · exact hleft ▸ hl.halt _ reason hx

theorem follows_write (hl : Law P) {x : Heap.Step α} (write : Heap.Write) (id : ObjectId)
    (hx : ∀ h, Heap.left x h = Heap.left (write.step id) h) (hT : ∀ a, T () a a) :
    hl.itself.Follows s s w T (Run.onHeap x) (Run.onHeap x) :=
  hl.follows (fun m hm => hl.left_onHeap (hx m.heap ▸ hl.write m write id hm)) hT

theorem left_safePoint (hl : Law P) {m : Machine} (hm : P m) :
    P (Run.left (Run.safePoint s m)) := by
  unfold Run.safePoint
  split
  · exact hm
  · dsimp only
    have hpolled := hl.polls m (m.polls + 1) hm
    split
    · exact hl.halt _ _ hpolled
    · split
      · exact hl.books _ { m.books with throwLine := m.line } (hl.spend _ hpolled)
      · exact hpolled

theorem follows_safePoint (hl : Law P) :
    hl.itself.Follows s s w hl.itself.Same Run.safePoint Run.safePoint :=
  hl.follows (fun _ => hl.left_safePoint) fun _ => rfl

theorem keeps (hl : Law P) : hl.itself.Keeps s s where
  callDepth := rfl
  allocate hport ho := by
    obtain rfl := HeapObject.Matches.eq_of_eq ho
    exact hl.follows (fun m hm => hl.left_onHeap (hl.allocate m _ hport hm)) fun _ => rfl
  setProperty hab key hv := by
    obtain rfl := hab
    obtain rfl := Value.Matches.eq_of_eq hv
    exact hl.follows_write (.property key _) _ (fun _ => rfl) fun _ => rfl
  setElement hab index hv := by
    obtain rfl := hab
    obtain rfl := Value.Matches.eq_of_eq hv
    exact hl.follows_write (.element index _) _ (fun _ => rfl) fun _ => rfl
  setLength hab length := by
    obtain rfl := hab
    exact hl.follows_write (.resize length) _ (fun _ => rfl) fun _ => rfl
  pushElements hab hvs := by
    obtain rfl := hab
    obtain rfl := Value.Matches.list_eq hvs
    exact hl.follows_write (.push _) _ (fun h => (Heap.left_discard _ h).symm) fun _ => rfl
  popElement hab := by
    obtain rfl := hab
    exact hl.follows_write .pop _ (fun h => (Heap.left_discard _ h).symm) Value.Matches.refl_eq
  openChild _ kind i _ := hl.follows (fun m => hl.openChild m kind i) fun _ => ⟨rfl, trivial⟩
  bind _ i name b b' _ hb := by
    obtain rfl := Binding.Matches.eq_of_eq hb
    exact hl.follows (fun m => hl.bind m i name b) fun _ => rfl
  host _ f hf := hl.follows (fun m => hl.host m f hf) fun _ => rfl
  portCall port hf hvs := by
    obtain rfl := Value.Matches.eq_of_eq hf
    obtain rfl := Value.Matches.list_eq hvs
    rintro m _ ⟨rfl, hm⟩ hfunction -
    exact hl.ends (hl.portCall s m port _ _ hfunction hm) Value.Matches.refl_eq
  safePoint _ := hl.follows_safePoint
  repeatWhile _ _ _ h := h.repeatWhile rfl (fun _ _ _ hst => congrArg Machine.polls hst.1)
    (fun _ m m' hst => ⟨.starved, m, rfl, ⟨m', rfl⟩, hst.2⟩) fun _ => hl.follows_safePoint

theorem nests (hl : Law P) : hl.itself.Nests s s := by
  refine Coupling.nests hl.keeps (fun _ _ _ hst => congrArg (fun m => m.nesting.level) hst.1)
    ?_ ?_ ?_
  · rintro _ m _ ⟨rfl, hm⟩
    exact ⟨rfl, hl.nesting m _ hm⟩
  · rintro _ m _ ⟨rfl, hm⟩
    exact ⟨rfl, hl.nesting m _ hm⟩
  · rintro _ p q ⟨e, m, rfl, ⟨m', rfl⟩, hm⟩
    exact ⟨e, _, rfl, ⟨_, rfl⟩, hl.nesting m _ hm⟩

theorem common (hl : Law P) (s : Setting) : hl.itself.Common s s () :=
  ⟨hl.keeps, rfl, rfl, trivial⟩

theorem of_ends (hl : Law P) {x y : EStateM.Result Abrupt Machine α}
    (h : hl.itself.Ends w T x y) : P (Run.left x) := by
  cases h with
  | ok _ hst _ => exact hst.2
  | abrupt _ hst _ => exact hst.2
  | final _ hover =>
      obtain ⟨e, m, hx, -, hm⟩ := hover
      rw [Run.final?_eq_some hx]
      exact hm

theorem eval (hl : Law P) {m : Machine} (hm : P m) (s : Setting) (depth : Nat) (e : Source.Expr)
    (frame : Frame) : P (Run.left ((Evaluator.ofDepth depth).eval e frame s m)) := by
  have hframe : hl.itself.Frames () frame frame := ⟨rfl, trivial, Value.Matches.refl_eq _⟩
  have hscene := (hl.common s).ofDepth hl.nests depth
  exact hl.of_ends (hscene.evalHere e hframe () trivial m m ⟨rfl, hm⟩)

/-- A run, of whatever task and however it ends, keeps what its steps keep. -/
theorem perform (hl : Law P) {m : Machine} (hm : P m) (s : Setting) (task : Task)
    (hconnect : ∀ handler port, task = .connect handler port → ∀ n, P n → n.heap = m.heap →
      P { n with heap := Heap.left (Environment.connectEvent port) n.heap }) :
    P (task.perform m s).2 := by
  rw [Task.perform_eq, Run.finish_left]
  refine hl.of_ends ((hl.common s).taskAt hl.nests task ⟨rfl, hm⟩ ?_)
  rintro handler port htask v - n _ ⟨rfl, hn⟩ hheap -
  exact hl.ends (hl.left_onHeap (hconnect handler port htask n hn hheap)) Value.Matches.refl_eq

/-- Properties of what scripts have in memory. -/
theorem of_memory {Q : Heap → Scopes → Prop}
    (allocate : ∀ h c o, o.port? = none → Q h c → Q (Heap.left (Heap.allocate o) h) c)
    (write : ∀ h c (w : Heap.Write) id, Q h c → Q (Heap.left (w.step id) h) c)
    (openChild : ∀ h c kind i, Q h c → Q h (c.openChild kind i).2)
    (bind : ∀ h c i name b, Q h c → Q h (c.bind i name b)) :
    Law fun m => Q m.heap m.scopes where
  books _ _ := id
  nesting _ _ := id
  polls _ _ := id
  halt _ _ := id
  spend _ := id
  allocate m o := allocate m.heap m.scopes o
  write m w id := write m.heap m.scopes w id
  openChild m kind i := openChild m.heap m.scopes kind i
  bind m i name b := bind m.heap m.scopes i name b
  host _ _ _ := id
  portCall s m port function args _ hm := by
    rw [Run.portCall_eq]
    split
    · exact hm
    · next error _ =>
      obtain ⟨hheap, hscopes, -⟩ :=
        Run.left_complain (.uncloneable error) s (m.post port function args) (α := Value)
      rw [hheap, hscopes, Heap.allocateError, Heap.left_map]
      exact allocate m.heap m.scopes _ rfl hm

end Law

end Machine

/-! ## Heaps -/

namespace Heap

/-- The host makes only such objects during a run as take one slot for each of their values. -/
structure Law (P : Heap → Prop) : Prop where
  allocate : ∀ h o, P h → P (left (allocate o) h)
  allocateHost : ∀ h o, o.lent = 0 → P h → P (h.allocateHost o).2
  write : ∀ h (w : Write) id, P h → P (left (w.step id) h)

variable {P : Heap → Prop}

theorem Law.machine (hl : Law P) : Machine.Law fun m => P m.heap :=
  .of_memory (Q := fun h _ => P h) (fun h _ o _ => hl.allocate h o) (fun h _ => hl.write h)
    (fun _ _ _ _ => id) fun _ _ _ _ _ => id

theorem Law.connectEvent (hl : Law P) (port : Nat) {h : Heap} (hh : P h) :
    P (left (Environment.connectEvent port) h) := by
  refine left_bind (hl.allocateHost h _ rfl hh) fun post h hh => ?_
  refine left_bind (hl.allocateHost h _ rfl hh) fun port h hh => ?_
  refine left_bind (hl.allocate h _ hh) fun ports h hh => ?_
  rw [left_map]
  exact hl.allocate h _ hh

theorem Law.perform (hl : Law P) {m : Machine} (hm : P m.heap) (s : Setting) (task : Task) :
    P (task.perform m s).2.heap :=
  hl.machine.perform hm s task fun _ port _ _ hn _ => hl.connectEvent port hn

end Heap

end ScriptHost

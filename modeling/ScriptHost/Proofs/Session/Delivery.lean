import ScriptHost.Proofs.Run.Posting
import ScriptHost.Proofs.Session.Environment
import ScriptHost.Proofs.Session.Muting

/-!
A shared worker and the receivers of its ports. Whatever the host does, and whatever scripts do with
the functions that post to the ports, each receiver gets what the calls of its function send.
-/

namespace ScriptHost

/-! ## Operations -/

namespace Environment

variable {receivers : Nat → Receiver} {past calls ps : List Posting} {made : Nat → ObjectId}
  {n : Nat} {e e' : Environment} {g : GlobalScope} {host host' : Host}

theorem tallied_ensureGlobal (ht : Tallied receivers past made n e.heap host calls) :
    Tallied receivers past made n (e.ensureGlobal host).2.1.heap (e.ensureGlobal host).2.2
      calls := by
  have hbuilt := GlobalScope.wired_build ht.wired e.scopes host
  unfold ensureGlobal
  generalize GlobalScope.build e.heap e.scopes host = built at hbuilt ⊢
  split
  · exact ht
  · exact (ht.withHeap hbuilt).withHost rfl

theorem tallied_collectGarbage (ht : Tallied receivers past made n e.heap host calls)
    (g : GlobalScope) : Tallied receivers past made n (e.collectGarbage g).heap host calls := by
  rw [collectGarbage_eq]
  exact ht.withHeap (ht.wired.tidied _ _ _)

theorem tallied_parseFailure (ht : Tallied receivers past made n e.heap host calls)
    (fault : Source.Fault) (line : Nat) :
    Tallied receivers past made n (e.parseFailure fault line).2.heap host calls := by
  have hw : (Heap.left (Heap.allocateError .grammar fault.message) e.heap).Wired made n :=
    Heap.left_map Value.object _ _ ▸ ht.wired.allocate rfl
  unfold parseFailure
  cases hmade : Heap.allocateError .grammar fault.message e.heap with
  | ok value heap => exact ht.withHeap (by rwa [Heap.left, hmade] at hw)
  | error reason heap => exact ht.withHeap (by rwa [Heap.left, hmade] at hw)

theorem tallied_perform (ht : Tallied receivers past made n e.heap host calls) (s : Setting)
    (task : Task)
    (hconnect : ∀ handler port, task = .connect handler port → port < n ∧
      (e.heap.allocateHost ⟨.native (.portPostMessage port), []⟩).1 = made port) :
    Tallied receivers past made n (e.execute host fun m => task.perform m s).2.1.heap
      (e.execute host fun m => task.perform m s).2.2
      (calls ++ e.postings host fun m => task.perform m s) := by
  have hstart : Tallied receivers past made n e.heap host (calls ++ [].reverse) :=
    (List.append_nil calls).symm ▸ ht
  refine (Tallied.law receivers past calls made n).perform
    (m := .start e.heap e.scopes e.pending host) hstart s task fun _ port htask m hm hheap => ?_
  obtain ⟨hport, hmade⟩ := hconnect _ port htask
  exact hm.withHeap (hm.wired.connectEvent hport (hheap ▸ hmade))

theorem Stage.tallied (h : Stage e host ps e' host')
    (ht : Tallied receivers past made n e.heap host calls) :
    ∃ made n, Tallied receivers past made n e'.heap host' (calls ++ ps) := by
  have hnone {heap : Heap} {host : Host} (ht : Tallied receivers past made n heap host calls) :
      ∃ made n, Tallied receivers past made n heap host (calls ++ []) :=
    ⟨made, n, (List.append_nil calls).symm ▸ ht⟩
  cases h with
  | ensured => exact hnone (tallied_ensureGlobal ht)
  | created hcreate =>
      obtain ⟨-, -, rfl⟩ := createError_ok hcreate
      exact hnone (ht.withHeap (ht.wired.allocateHost_plain rfl))
  | injected hinject =>
      obtain ⟨-, -, rfl⟩ := inject_ok hinject
      exact hnone ht
  | ran source oversight =>
      have hready := tallied_collectGarbage (tallied_ensureGlobal ht) (e.ensureGlobal host).1
      unfold run runPostings
      cases Source.parse source.text with
      | error fault => exact hnone (tallied_parseFailure hready fault _)
      | ok program => exact ⟨made, n, tallied_perform hready _ (.program program) nofun⟩
  | messaged oversight data =>
      have hready := tallied_collectGarbage (tallied_ensureGlobal ht) (e.ensureGlobal host).1
      exact ⟨made, n, tallied_perform hready _ (.message "onmessage" data) nofun⟩
  | @connected port host' oversight hconnect =>
      -- the function of the new port goes where the next object is going to be
      let ready := (e.ensureGlobal host').2.1.collectGarbage (e.ensureGlobal host').1
      let id := (ready.heap.allocateHost ⟨.native (.portPostMessage port), []⟩).1
      obtain ⟨rfl, hnew⟩ := ht.connect hconnect id
      have hready := tallied_collectGarbage (tallied_ensureGlobal hnew) (e.ensureGlobal host').1
      refine ⟨_, _, tallied_perform hready _ (.connect "onconnect" port) fun _ _ htask => ?_⟩
      obtain ⟨-, rfl⟩ := Task.connect.inj htask
      exact ⟨Nat.lt_succ_self port, (Function.update_self port id made).symm⟩

theorem Stages.tallied (h : Stages e host ps e' host')
    (ht : Tallied receivers past made n e.heap host []) :
    ∃ made n, Tallied receivers past made n e'.heap host' ps :=
  h.keep (P := fun calls e host => ∃ made n, Tallied receivers past made n e.heap host calls)
    (fun hstage ⟨_, _, ht⟩ => hstage.tallied ht) [] ⟨made, n, ht⟩

end Environment

/-! ## Receivers -/

namespace Receiver

def receive (r : Receiver) (channel : Channel Json) : Receiver × Channel Json :=
  ({ r with taken := r.taken ++ channel.receive.1.toList }, channel.receive.2)

def drain (r : Receiver) (channel : Channel Json) : Receiver × Channel Json :=
  ({ r with taken := r.taken ++ channel.drain.1 }, channel.drain.2)

def drop (r : Receiver) (channel : Channel Json) : Receiver × Channel Json :=
  ({ r with alive := false }, channel.drop)

variable {r : Receiver} {channel : Channel Json} {sent : List Json}

theorem Gets.receive (h : r.Gets channel sent) :
    (r.receive channel).1.Gets (r.receive channel).2 sent := by
  refine ⟨h.closed, fun halive => ?_⟩
  rw [← h.all halive]
  obtain ⟨⟨waiting⟩, isClosed⟩ := channel
  cases waiting <;> simp [Receiver.receive, Channel.receive]

theorem Gets.drain (h : r.Gets channel sent) :
    (r.drain channel).1.Gets (r.drain channel).2 sent := by
  refine ⟨h.closed, fun halive => ?_⟩
  rw [← h.all halive]
  exact List.append_nil _

theorem gets_drop (r : Receiver) (channel : Channel Json) (sent : List Json) :
    (r.drop channel).1.Gets (r.drop channel).2 sent :=
  ⟨rfl, fun halive => nomatch halive⟩

end Receiver

/-! ## Between operations -/

theorem Host.ports?_withPort {host : Host} {ports : Array (Channel Json)}
    (hports : host.ports? = some ports) (port : Nat) (channel : Channel Json) :
    (host.withPort port channel).ports? = some (ports.setIfInBounds port channel) := by
  obtain ⟨location, env, log, closing, wrappers, role⟩ := host
  cases role with
  | dedicated => exact nomatch hports
  | shared name ports =>
      obtain rfl := Option.some.inj hports
      rfl

namespace Tallied

variable {receivers : Nat → Receiver} {past calls : List Posting} {made : Nat → ObjectId}
  {n port : Nat} {heap : Heap} {host : Host} {ports : Array (Channel Json)}
  {channel channel' : Channel Json} {receiver : Receiver}

theorem nothing_meanwhile {P : List Posting → Posting → Prop} :
    ∀ before p, before ++ [p] <+: [] → P before p :=
  fun before p hp => absurd (List.prefix_nil.1 hp) (List.concat_ne_nil p before)

theorem empty (arena : Nat) (limits : Limits) (host : Host) (hports : host.ports? = some #[]) :
    Tallied (fun _ => .new) [] made 0 (Heap.empty arena limits) host [] where
  wired := .empty arena limits made 0
  ports := by rw [hports]; rfl
  unused _ _ := rfl
  delivers := ⟨#[], hports, fun _ _ hchannel => nomatch hchannel⟩
  addressed _ hp := absurd hp List.not_mem_nil
  meanwhile := nothing_meanwhile

/-- Once an operation is over, its calls are among those of the past. -/
theorem settled (ht : Tallied receivers past made n heap host calls) :
    Tallied receivers (past ++ calls) made n heap host [] where
  wired := ht.wired
  ports := ht.ports
  unused := ht.unused
  delivers := (List.append_nil (past ++ calls)).symm ▸ ht.delivers
  addressed := (List.append_nil (past ++ calls)).symm ▸ ht.addressed
  meanwhile := nothing_meanwhile

/-- What happens at one port and its receiver concerns no other. -/
theorem atPort (ht : Tallied receivers past made n heap host []) (hports : host.ports? = some ports)
    (hchannel : ports[port]? = some channel)
    (hgets : ∀ sent, (receivers port).Gets channel sent → receiver.Gets channel' sent) :
    Tallied (Function.update receivers port receiver) past made n heap
      (host.withPort port channel') [] := by
  have hlt := (Array.getElem?_eq_some_iff.1 hchannel).1
  have hset := Host.ports?_withPort hports port channel'
  have hn : some ports.size = some n := by simpa [hports] using ht.ports
  constructor
  case wired => exact ht.wired
  case ports => simpa [hset] using hn
  case unused =>
    intro k hk
    rw [Function.update_of_ne (by have := Option.some.inj hn; omega)]
    exact ht.unused k hk
  case delivers =>
    obtain ⟨ports', hports', hall⟩ := ht.delivers
    obtain rfl := Option.some.inj (hports.symm.trans hports')
    refine ⟨_, hset, fun k other hother => ?_⟩
    rw [Array.getElem?_setIfInBounds] at hother
    split at hother
    · next hk =>
      subst hk
      obtain rfl := Option.some.inj hother
      rw [Function.update_self]
      exact hgets _ (hall port channel hchannel)
    · next hk =>
      rw [Function.update_of_ne (Ne.symm hk)]
      exact hall k other hother
  case addressed => exact ht.addressed
  case meanwhile => exact nothing_meanwhile

end Tallied

/-- What a host goes about: an operation of its worker, or something at the other end of a port. -/
inductive Errand where
  | operate (clock : Nat → Nat) (turn : Turn)
  | receive (port : Nat)
  | drain (port : Nat)
  | drop (port : Nat)

def Errand.port? : Errand → Option Nat
  | operate .. => none
  | receive port | drain port | drop port => some port

/-- A session, the receivers of its ports, and the calls of port functions and events so far. -/
structure Exchange where
  session : Session
  receivers : Nat → Receiver
  calls : List Posting
  events : List Event

namespace Exchange

def start (arena : Nat) (location : String) (env : List (String × String)) (logged : Bool)
    (name : String) (limits : Limits) (reporting : Bool) : Exchange where
  session := .start arena (.new location env logged (.shared name #[])) limits reporting
  receivers _ := .new
  calls := []
  events := []

def host (x : Exchange) : Host :=
  x.session.worker.host

def postings (x : Exchange) (clock : Nat → Nat) (t : Turn) : List Posting :=
  x.session.worker.postings t.guard (t.around clock) t.operation

def channel? (x : Exchange) (port : Nat) : Option (Channel Json) :=
  x.host.ports?.bind (·[port]?)

/-- There is a receiver only where a port has been registered. -/
def atPort (x : Exchange) (port : Nat)
    (f : Receiver → Channel Json → Receiver × Channel Json) : Exchange :=
  match x.channel? port with
  | none => x
  | some channel =>
      { x with
        session.worker.host := x.host.withPort port (f (x.receivers port) channel).2
        receivers := Function.update x.receivers port (f (x.receivers port) channel).1 }

def next (x : Exchange) : Errand → Exchange
  | .operate clock t =>
      ⟨(x.session.turn clock t).2, x.receivers, x.calls ++ x.postings clock t,
        x.events ++ [(x.session.turn clock t).1]⟩
  | .receive port => x.atPort port Receiver.receive
  | .drain port => x.atPort port Receiver.drain
  | .drop port => x.atPort port Receiver.drop

def after (x : Exchange) (errands : List Errand) : Exchange :=
  errands.foldl next x

/-! ## Nothing is lost -/

/-- What holds between operations. -/
def Orderly (x : Exchange) : Prop :=
  ∃ made n, Tallied x.receivers x.calls made n x.session.worker.environment.heap x.host []

variable {x y z : Exchange} {port : Nat}

theorem orderly_start (arena : Nat) (location : String) (env : List (String × String))
    (logged : Bool) (name : String) (limits : Limits) (reporting : Bool) :
    (start arena location env logged name limits reporting).Orderly :=
  ⟨fun _ => ⟨0, 0, 0⟩, 0, .empty arena limits _ rfl⟩

theorem Orderly.turn (hx : x.Orderly) (clock : Nat → Nat) (t : Turn) :
    ∃ made n, Tallied x.receivers x.calls made n (x.session.turn clock t).2.worker.environment.heap
      (x.session.turn clock t).2.worker.host (x.postings clock t) := by
  obtain ⟨made, n, ht⟩ := hx
  exact (x.session.advances_turn clock t).stages.tallied ht

theorem atPort_none (hchannel : x.channel? port = none)
    (f : Receiver → Channel Json → Receiver × Channel Json) : x.atPort port f = x := by
  rw [atPort, hchannel]

theorem atPort_some {channel : Channel Json} (hchannel : x.channel? port = some channel)
    (f : Receiver → Channel Json → Receiver × Channel Json) :
    x.atPort port f =
      ⟨{ x.session with
          worker.host := x.host.withPort port (f (x.receivers port) channel).2 },
        Function.update x.receivers port (f (x.receivers port) channel).1, x.calls, x.events⟩ := by
  rw [atPort, hchannel]

theorem Orderly.atPort (hx : x.Orderly) (port : Nat)
    {f : Receiver → Channel Json → Receiver × Channel Json}
    (hf : ∀ {r channel sent}, r.Gets channel sent → (f r channel).1.Gets (f r channel).2 sent) :
    (x.atPort port f).Orderly := by
  cases hchannel : x.channel? port with
  | none => exact (atPort_none hchannel f).symm ▸ hx
  | some channel =>
      obtain ⟨made, n, ht⟩ := hx
      obtain ⟨ports, hports, hport⟩ := Option.bind_eq_some_iff.1 hchannel
      rw [atPort_some hchannel]
      exact ⟨made, n, ht.atPort hports hport fun _ => hf⟩

theorem Orderly.next (hx : x.Orderly) (errand : Errand) : (x.next errand).Orderly := by
  cases errand with
  | operate clock t =>
      obtain ⟨made, n, ht⟩ := hx.turn clock t
      exact ⟨made, n, ht.settled⟩
  | receive port => exact hx.atPort port .receive
  | drain port => exact hx.atPort port .drain
  | drop port => exact hx.atPort port fun _ => Receiver.gets_drop _ _ _

theorem Orderly.after (hx : x.Orderly) (errands : List Errand) : (x.after errands).Orderly := by
  induction errands generalizing x with
  | nil => exact hx
  | cons errand errands ih => exact ih (hx.next errand)

/-- A receiver is there until it is dropped. -/
theorem alive_next {errand : Errand} (herrand : errand ≠ .drop port)
    (hx : (x.receivers port).alive = true) : ((x.next errand).receivers port).alive = true := by
  have hat (other : Nat) (f : Receiver → Channel Json → Receiver × Channel Json)
      (hf : other = port → ∀ r channel, (f r channel).1.alive = r.alive) :
      ((x.atPort other f).receivers port).alive = true := by
    cases hchannel : x.channel? other with
    | none => rwa [atPort_none hchannel]
    | some channel =>
        rw [atPort_some hchannel]
        dsimp only
        by_cases hport : other = port
        · subst hport
          rwa [Function.update_self, hf rfl]
        · rwa [Function.update_of_ne (Ne.symm hport)]
  cases errand with
  | operate clock t => exact hx
  | receive other => exact hat other _ fun _ _ _ => rfl
  | drain other => exact hat other _ fun _ _ _ => rfl
  | drop other => exact hat other _ fun hport => absurd (congrArg Errand.drop hport) herrand

theorem alive_after {errands : List Errand} (herrands : .drop port ∉ errands)
    (hx : (x.receivers port).alive = true) : ((x.after errands).receivers port).alive = true := by
  induction errands generalizing x with
  | nil => exact hx
  | cons errand errands ih =>
      have hne : errand ≠ .drop port := fun heq => herrands (heq ▸ List.mem_cons_self)
      exact ih (fun hmem => herrands (List.mem_cons_of_mem errand hmem)) (alive_next hne hx)

/-! ## Nobody else is affected -/

/-- Nothing but a port and its receiver tells the two apart. -/
structure Apart (port : Nat) (x y : Exchange) : Prop where
  session : x.session.muted port = y.session.muted port
  receivers : ∀ other, other ≠ port → x.receivers other = y.receivers other
  calls : x.calls.map (Posting.muted port) = y.calls.map (Posting.muted port)
  events : x.events.map (Event.muted port) = y.events.map (Event.muted port)

namespace Apart

theorem refl (port : Nat) (x : Exchange) : x.Apart port x :=
  ⟨rfl, fun _ _ => rfl, rfl, rfl⟩

theorem trans (h : x.Apart port y) (h' : y.Apart port z) : x.Apart port z :=
  ⟨h.session.trans h'.session, fun other hother => (h.receivers other hother).trans
    (h'.receivers other hother), h.calls.trans h'.calls, h.events.trans h'.events⟩

theorem host_muted (h : x.Apart port y) : x.host.muted port = y.host.muted port :=
  congrArg (fun s => s.worker.host) h.session

theorem channel?_eq (h : x.Apart port y) {other : Nat} (hother : other ≠ port) :
    x.channel? other = y.channel? other := by
  have hmuted (host : Host) :
      (host.muted port).ports?.bind (·[other]?) = host.ports?.bind (·[other]?) := by
    obtain ⟨location, env, log, closing, wrappers, role⟩ := host
    cases role with
    | dedicated => rfl
    | shared name ports => exact Array.getElem?_setIfInBounds_ne (Ne.symm hother)
  rw [channel?, channel?, ← hmuted, ← hmuted y.host, h.host_muted]

theorem withPort_muted (host : Host) {other : Nat} (hother : other ≠ port)
    (channel : Channel Json) :
    (host.withPort other channel).muted port = (host.muted port).withPort other channel := by
  obtain ⟨location, env, log, closing, wrappers, role⟩ := host
  cases role with
  | dedicated => rfl
  | shared name ports =>
      exact congrArg (fun ports => Host.mk location env log closing wrappers (.shared name ports))
        (Array.setIfInBounds_comm _ _ hother)

theorem muted_withPort (host : Host) (channel : Channel Json) :
    (host.withPort port channel).muted port = host.muted port := by
  obtain ⟨location, env, log, closing, wrappers, role⟩ := host
  cases role with
  | dedicated => rfl
  | shared name ports =>
      exact congrArg (fun ports => Host.mk location env log closing wrappers (.shared name ports))
        (Array.setIfInBounds_setIfInBounds channel)

theorem atPort (h : x.Apart port y) {other : Nat} (hother : other ≠ port)
    (f : Receiver → Channel Json → Receiver × Channel Json) :
    (x.atPort other f).Apart port (y.atPort other f) := by
  have hsame := h.channel?_eq hother
  cases hchannel : x.channel? other with
  | none =>
      rw [atPort_none hchannel, atPort_none (hsame ▸ hchannel)]
      exact h
  | some channel =>
      rw [atPort_some hchannel, atPort_some (hsame ▸ hchannel), h.receivers other hother]
      refine ⟨?_, fun k hk => ?_, h.calls, h.events⟩
      · let next (s : Session) (host : Host) : Session := { s with worker.host := host }
        calc next (x.session.muted port) ((x.host.withPort other _).muted port)
          _ = next (y.session.muted port) ((x.host.muted port).withPort other _) := by
            rw [h.session, withPort_muted x.host hother]
          _ = next (y.session.muted port) ((y.host.withPort other _).muted port) := by
            rw [h.host_muted, withPort_muted y.host hother]
      · dsimp only
        by_cases hk' : k = other
        · subst hk'
          rw [Function.update_self, Function.update_self]
        · rw [Function.update_of_ne hk', Function.update_of_ne hk']
          exact h.receivers k hk

/-- What is done at the port itself. -/
theorem here (x : Exchange) (port : Nat) (f : Receiver → Channel Json → Receiver × Channel Json) :
    (x.atPort port f).Apart port x := by
  cases hchannel : x.channel? port with
  | none => exact (atPort_none hchannel f).symm ▸ refl port x
  | some channel =>
      rw [atPort_some hchannel]
      refine ⟨?_, fun k hk => Function.update_of_ne hk _ _, rfl, rfl⟩
      exact congrArg (fun host : Host => { x.session with worker.host := host })
        (muted_withPort x.host _)

/-- Before there is such a port, nothing at all tells the two apart. -/
theorem operate (h : x.Apart port y) (clock : Nat → Nat) (t : Turn) :
    (x.next (.operate clock t)).Apart port (y.next (.operate clock t)) := by
  have hturn : Prod.map (Event.muted port) (Session.muted port) (x.session.turn clock t) =
      Prod.map (Event.muted port) (Session.muted port) (y.session.turn clock t) ∧
      (x.postings clock t).map (Posting.muted port) =
        (y.postings clock t).map (Posting.muted port) := by
    by_cases hport : x.host.Registered port
    · have hport' : y.host.Registered port :=
        (y.host.registered_muted port).1 (h.host_muted ▸ (x.host.registered_muted port).2 hport)
      refine ⟨?_, ?_⟩
      · rw [← Session.turn_muted hport, ← Session.turn_muted hport', h.session]
      · have hx := Worker.postings_muted port t.guard (t.around clock) hport t.operation
        have hy := Worker.postings_muted port t.guard (t.around clock) hport' t.operation
        have hworker : x.session.worker.muted port = y.session.worker.muted port :=
          congrArg Session.worker h.session
        rw [postings, postings, ← hx, ← hy, hworker]
    · have hport' : ¬ y.host.Registered port := fun hy => hport <|
        (x.host.registered_muted port).1 (h.host_muted ▸ (y.host.registered_muted port).2 hy)
      have hsame : x.session = y.session := by
        rw [← x.session.muted_of_not_registered hport, ← y.session.muted_of_not_registered hport',
          h.session]
      rw [postings, postings, hsame]
      exact ⟨rfl, rfl⟩
  obtain ⟨hsession, hcalls⟩ := hturn
  refine ⟨congrArg Prod.snd hsession, h.receivers, ?_, ?_⟩
  · simp only [next, List.map_append, h.calls, hcalls]
  · have hevent : (x.session.turn clock t).1.muted port = (y.session.turn clock t).1.muted port :=
      congrArg Prod.fst hsession
    simp only [next, List.map_append, h.events, List.map_cons, hevent, List.map_nil]

theorem after (h : x.Apart port y) (errands : List Errand) :
    (x.after errands).Apart port
      (y.after (errands.filter fun errand => errand.port? ≠ some port)) := by
  induction errands generalizing x y with
  | nil => exact h
  | cons errand errands ih =>
      by_cases hport : errand.port? = some port
      · rw [List.filter_cons_of_neg (by simp [hport])]
        refine ih (trans ?_ h)
        cases errand with
        | operate => exact nomatch hport
        | receive other | drain other | drop other =>
            obtain rfl := Option.some.inj hport
            exact here x _ _
      · rw [List.filter_cons_of_pos (by simp [hport])]
        refine ih ?_
        cases errand with
        | operate clock t => exact h.operate clock t
        | receive other | drain other | drop other =>
            exact h.atPort (fun heq => hport (congrArg some heq)) _

end Apart

/-! ## Sessions -/

/--
Every receiver has got or is going to get what the calls of its function have sent, and so it is at
each call of an operation that comes next.
-/
structure Faithful (x : Exchange) : Prop where
  delivers : x.host.Delivers x.receivers x.calls
  meanwhile : ∀ clock t before p, before ++ [p] <+: x.postings clock t →
    p.world.host.Delivers x.receivers (x.calls ++ before)
  addressed : ∃ made n, x.host.ports?.map Array.size = some n ∧
    x.session.worker.environment.heap.Wired made n ∧ ∀ p ∈ x.calls, p.Addressed made n

theorem Orderly.faithful (hx : x.Orderly) : x.Faithful := by
  refine ⟨?_, fun clock t => ?_, ?_⟩
  · obtain ⟨made, n, ht⟩ := hx
    exact List.append_nil x.calls ▸ ht.delivers
  · obtain ⟨made, n, ht⟩ := hx.turn clock t
    exact ht.meanwhile
  · obtain ⟨made, n, ht⟩ := hx
    exact ⟨made, n, ht.ports, ht.wired, List.append_nil x.calls ▸ ht.addressed⟩

/--
Whatever the host of a shared worker goes about, each receiver gets the clones of what the function
of its port has been called with, as they were then and in that order, until it is dropped. What is
done at one receiver makes no difference to anything else. A call either sends a message or throws a
new error, unless there is no memory for it, and scripts are handed the function with the event.
-/
theorem messages_delivered (arena : Nat) (location : String) (env : List (String × String))
    (logged : Bool) (name : String) (limits : Limits) (reporting : Bool) (errands : List Errand) :
    let begun := start arena location env logged name limits reporting
    let x := begun.after errands
    x.Faithful ∧
      (∀ port, .drop port ∉ errands → (x.receivers port).alive = true) ∧
      (∀ port, x.Apart port (begun.after (errands.filter fun errand => errand.port? ≠ some port))) ∧
      (∀ (m : Machine) (s : Setting) (self : Evaluator) (function this : Value) (args : List Value)
        (name : String) (port : Nat), m.heap.Sound → m.heap.port? function = some port →
          Run.Posted m port function args (self.call function this args name s m)) ∧
      ∀ (heap heap' : Heap) (port : Nat) (event : Value), heap.Sound →
        Environment.connectEvent port heap = .ok event heap' →
        ∃ ports source function, heap'.property? event "ports" = some ports ∧
          heap'.property? ports "0" = some source ∧ heap'.property? event "source" = some source ∧
          heap'.property? source "postMessage" = some function ∧
          heap'.port? function = some port := by
  intro begun x
  have hstart : begun.Orderly := orderly_start arena location env logged name limits reporting
  refine ⟨(hstart.after errands).faithful, fun port hport => ?_, fun port => ?_, ?_, ?_⟩
  · exact alive_after hport rfl
  · exact (Apart.refl port begun).after errands
  · intro m s self function this args name port hs hport
    rw [Run.call_eq_portCall hport]
    exact Run.portCall_posted hs port function args s
  · exact fun _ _ _ _ hs hok => Heap.connectEvent_ok hs hok

/-- A function is kept from one connection to the next, and what it posted is changed afterwards. -/
example :
    let evaluate (source : String) : Errand :=
      .operate (fun _ => 0) ⟨.new, fun _ _ => false, 100, .evaluate (.anonymous source) .propagate⟩
    let connect : Errand := .operate (fun _ => 0) ⟨.new, fun _ _ => false, 100, .connect⟩
    let x := (start 0 "worker" [] false "shared" {} true).after
      [evaluate ("var post = null; onconnect = function (e) \x7b e.source.postMessage('new'); " ++
          "if (post === null) post = e.source.postMessage \x7d"), connect, connect, .drop 1,
        evaluate "var o = \x7b a: 'b' \x7d; post(o); o.a = 'c'", .receive 0]
    (x.receivers 0).taken.map Json.write = ["\"new\""] ∧
      (x.channel? 0).map (fun channel => channel.waiting.toList.map Json.write) =
        some ["\x7b\"a\":\"b\"\x7d"] := by
  decide +kernel

end Exchange

end ScriptHost

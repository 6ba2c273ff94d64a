import ScriptHost.Proofs.Heap.Contents
import ScriptHost.Proofs.Run.Complaining

/-!
The functions that post to ports, and what their calls send. Each port has one such function, which
scripts can keep and pass on but neither make nor change.
-/

namespace ScriptHost

/-! ## The functions -/

namespace HeapObject

theorem port?_put (o : HeapObject) (key : String) (value : Value) :
    (o.put key value).port? = o.port? :=
  rfl

theorem port?_mapItems (o : HeapObject) (f : Array Value → Array Value) :
    (o.mapItems f).port? = o.port? := by
  obtain ⟨kind, properties⟩ := o
  cases kind <;> rfl

theorem port?_change (o : HeapObject) (w : Heap.Write) : (w.change o).port? = o.port? := by
  cases w with
  | property key value => exact o.port?_put key value
  | _ => exact o.port?_mapItems _

end HeapObject

namespace Heap

variable {h k : Heap} {made : Nat → ObjectId} {n : Nat} {o : HeapObject} {id : ObjectId}

/-- Whatever posts to a port was made for it, and the ports have numbers below the given one. -/
def Wired (made : Nat → ObjectId) (n : Nat) (h : Heap) : Prop :=
  h.All fun i o => ∀ port, o.port? = some port → port < n ∧ i = some (made port)

namespace Wired

theorem empty (arena : Nat) (limits : Limits) (made : Nat → ObjectId) (n : Nat) :
    (Heap.empty arena limits).Wired made n :=
  All.empty (fun _ hport => nomatch hport) arena limits

theorem port? (hw : h.Wired made n) {function : Value} {port : Nat}
    (hport : h.port? function = some port) : port < n ∧ function = .object (made port) := by
  obtain ⟨id, hid, hport⟩ := Option.bind_eq_some_iff.1 hport
  have hfunction : function = .object id := by
    cases function with
    | object => exact congrArg Value.object (Option.some.inj hid)
    | _ => cases hid
  cases ho : h.find? id with
  | none =>
      rw [object, ho] at hport
      cases (hw.tombstone port hport).2
  | some o =>
      rw [object, ho] at hport
      obtain ⟨hlt, hid⟩ := hw.objects id o ho port hport
      exact ⟨hlt, hfunction.trans (congrArg Value.object (Option.some.inj hid))⟩

theorem widen (hw : h.Wired made n) {made' : Nat → ObjectId} {n' : Nat} (hn : n ≤ n')
    (hsame : ∀ port < n, made' port = made port) : h.Wired made' n' := by
  refine hw.imp fun i o ho port hport => ?_
  obtain ⟨hlt, hid⟩ := ho port hport
  exact ⟨Nat.lt_of_lt_of_le hlt hn, hid.trans (congrArg some (hsame port hlt).symm)⟩

theorem allocateHost (hw : h.Wired made n) (o : HeapObject)
    (ho : ∀ port, o.port? = some port → port < n ∧ (h.allocateHost o).1 = made port) :
    (h.allocateHost o).2.Wired made n :=
  All.allocateHost hw fun port hport => (ho port hport).imp_right (congrArg some)

theorem allocateHost_plain (hw : h.Wired made n) {o : HeapObject} (ho : o.port? = none) :
    (h.allocateHost o).2.Wired made n :=
  hw.allocateHost o fun _ hport => nomatch ho.symm.trans hport

theorem allocate (hw : h.Wired made n) {o : HeapObject} (ho : o.port? = none) :
    (left (allocate o) h).Wired made n :=
  All.allocate hw fun _ _ hport => nomatch ho.symm.trans hport

theorem update (hw : h.Wired made n) (id : ObjectId) {f : HeapObject → HeapObject}
    (hf : ∀ o, (f o).port? = o.port?) : (h.update id f).Wired made n :=
  All.update hw id fun _ o ho port hport => ho port ((hf o).symm.trans hport)

theorem write (hw : h.Wired made n) (w : Write) (id : ObjectId) :
    (left (w.step id) h).Wired made n :=
  All.write hw w id fun _ o ho port hport => ho port ((o.port?_change w).symm.trans hport)

theorem tidied (hw : h.Wired made n) (s : Scopes) (roots : List Value) (scopes : List ScopeId) :
    (h.tidied s roots scopes).Wired made n :=
  All.tidied hw s roots scopes

/-- The function of a new port is the first thing that is made for its event. -/
theorem connectEvent (hw : h.Wired made n) {port : Nat} (hport : port < n)
    (hmade : (h.allocateHost ⟨.native (.portPostMessage port), []⟩).1 = made port) :
    (left (Environment.connectEvent port) h).Wired made n := by
  have hfunction : (h.allocateHost ⟨.native (.portPostMessage port), []⟩).2.Wired made n :=
    hw.allocateHost _ fun _ heq => Option.some.inj heq ▸ ⟨hport, hmade⟩
  refine left_bind hfunction fun post h hh => ?_
  refine left_bind (hh.allocateHost_plain rfl) fun port h hh => ?_
  refine left_bind (hh.allocate rfl) fun ports h hh => ?_
  rw [left_map]
  exact hh.allocate rfl

end Wired

/-! ## The event of a new port -/

section Event

theorem Sound.placed_of_allocateHost (hs : h.Sound)
    (hok : (modifyGet fun h => h.allocateHost o : Step ObjectId) h = .ok id k) :
    h.Placed o id k := by
  obtain ⟨rfl, rfl⟩ := EStateM.Result.ok.inj hok
  exact hs.place o o.slots

/-- A script gets at the function of a new port from the event, in either of two ways. -/
theorem connectEvent_ok {port : Nat} {event : Value} (hs : h.Sound)
    (hok : Environment.connectEvent port h = .ok event k) :
    ∃ ports source function, k.property? event "ports" = some ports ∧
      k.property? ports "0" = some source ∧ k.property? event "source" = some source ∧
      k.property? source "postMessage" = some function ∧ k.port? function = some port := by
  obtain ⟨post, h₁, hok₁, hok⟩ := bind_eq_ok hok
  have hpost := hs.placed_of_allocateHost hok₁
  obtain ⟨source, h₂, hok₂, hok⟩ := bind_eq_ok hok
  have hsource := hpost.sound.placed_of_allocateHost hok₂
  obtain ⟨ports, h₃, hok₃, hok⟩ := bind_eq_ok hok
  have hports := hsource.sound.placed_of_allocate hok₃
  rw [map_eq_pure_bind] at hok
  obtain ⟨made, h₄, hok₄, hok⟩ := bind_eq_ok hok
  have hmade := hports.sound.placed_of_allocate hok₄
  obtain ⟨rfl, rfl⟩ := EStateM.Result.ok.inj hok
  have hfound : h₄.object ports = ⟨.array #[.object source], []⟩ :=
    object_eq (hmade.keeps hports.here)
  refine ⟨.object ports, .object source, .object post, ?_, ?_, ?_, ?_, ?_⟩
  · rw [property?, object_eq hmade.here]
    rfl
  · rw [property?, hfound]
    rfl
  · rw [property?, object_eq hmade.here]
    rfl
  · rw [property?, object_eq (hmade.keeps (hports.keeps hsource.here))]
    rfl
  · have hkept := hmade.keeps (hports.keeps (hsource.keeps hpost.here))
    exact congrArg HeapObject.port? (object_eq hkept)

end Event

end Heap

/-! ## The global scope -/

namespace GlobalScope

variable {α β : Type} {made : Nat → ObjectId} {n : Nat}

/-- A part of the global scope that has nothing to do with ports. -/
def Portless (x : Building α) : Prop :=
  ∀ (made : Nat → ObjectId) (n : Nat) (h : Heap), h.Wired made n → (x h).2.Wired made n

theorem Portless.pure (a : α) : Portless (pure a : Building α) :=
  fun _ _ _ => id

theorem Portless.bind {x : Building α} {f : α → Building β} (hx : Portless x)
    (hf : ∀ a, Portless (f a)) : Portless (x >>= f) :=
  fun made n h hh => hf _ made n _ (hx made n h hh)

theorem portless_make {o : HeapObject} (ho : o.port? = none) : Portless (make o) :=
  fun _ _ _ hh => hh.allocateHost_plain ho

theorem portless_lendAll {functions : List (String × Native)}
    (hnone : ∀ f ∈ functions, (⟨.native f.2, []⟩ : HeapObject).port? = none) :
    Portless (lendAll functions) := by
  induction functions with
  | nil => exact .pure []
  | cons first rest ih =>
      obtain ⟨name, function⟩ := first
      obtain ⟨hfirst, hrest⟩ := List.forall_mem_cons.1 hnone
      rw [lendAll_cons]
      exact (portless_make hfirst).bind fun _ => (ih hrest).bind fun _ => .pure _

theorem portless_roleProperties (host : Host) : Portless (roleProperties host) := by
  unfold roleProperties
  cases host.role with
  | dedicated => exact (portless_make rfl).bind fun _ => .pure _
  | shared => exact .pure _

theorem portless_properties (host : Host) : Portless (properties host) := by
  have hconsole : ∀ f ∈ console, (⟨.native f.2, []⟩ : HeapObject).port? = none :=
    List.forall_mem_map.2 fun _ _ => rfl
  have hjson : ∀ f ∈ json, (⟨.native f.2, []⟩ : HeapObject).port? = none := by decide
  have herrors : ∀ f ∈ errors, (⟨.native f.2, []⟩ : HeapObject).port? = none :=
    List.forall_mem_map.2 fun _ _ => rfl
  refine (portless_lendAll hconsole).bind fun _ => (portless_make rfl).bind fun _ => ?_
  refine (portless_lendAll hjson).bind fun _ => (portless_make rfl).bind fun _ => ?_
  refine (portless_make rfl).bind fun _ => (portless_lendAll herrors).bind fun _ => ?_
  exact (portless_make rfl).bind fun _ => (portless_roleProperties host).bind fun _ => .pure _

theorem wired_build {heap : Heap} (hw : heap.Wired made n) (scopes : Scopes) (host : Host) :
    (build heap scopes host).2.1.Wired made n := by
  have hready := portless_properties host made n heap hw
  unfold build
  generalize properties host heap = ready at hready ⊢
  obtain ⟨table, heap⟩ := ready
  have hobject : (heap.allocateHost ⟨.ordinary, table⟩).2.Wired made n :=
    hready.allocateHost_plain rfl
  exact hobject.update _ fun o => o.port?_put "self" _

end GlobalScope

/-! ## Calls -/

namespace Posting

/-- The clone of the argument at the time of the call, if it can be cloned. -/
def message? (p : Posting) : Option Json :=
  (p.world.heap.toJson (p.args.head?.getD .undefined)).toOption

/-- What the calls send to a port, in their order. -/
def sent (port : Nat) (calls : List Posting) : List Json :=
  calls.filterMap fun p => if p.port = port then p.message? else none

theorem sent_concat (port : Nat) (calls : List Posting) (p : Posting) :
    sent port (calls ++ [p]) =
      sent port calls ++ (if p.port = port then p.message? else none).toList := by
  rw [sent, List.filterMap_append, List.filterMap_cons]
  cases (if p.port = port then p.message? else none) <;> rfl

theorem sent_of_lt {calls : List Posting} {n port : Nat} (hcalls : ∀ p ∈ calls, p.port < n)
    (hport : n ≤ port) : sent port calls = [] := by
  refine List.filterMap_eq_nil_iff.2 fun p hp => if_neg fun heq => ?_
  exact absurd (hcalls p hp) (Nat.not_lt.2 (heq ▸ hport))

/-- The function called is the one made for the port. -/
structure Addressed (made : Nat → ObjectId) (n : Nat) (p : Posting) : Prop where
  sound : p.world.heap.Sound
  port : p.world.heap.port? p.function = some p.port
  function : p.function = .object (made p.port)
  below : p.port < n

theorem Addressed.widen {made made' : Nat → ObjectId} {n n' : Nat} {p : Posting}
    (h : p.Addressed made n) (hn : n ≤ n') (hsame : ∀ port < n, made' port = made port) :
    p.Addressed made' n' :=
  ⟨h.sound, h.port, h.function.trans (congrArg Value.object (hsame p.port h.below).symm),
    Nat.lt_of_lt_of_le h.below hn⟩

end Posting

/-- The other end of a port: what has been taken there, and whether there still is anyone. -/
structure Receiver where
  taken : List Json
  alive : Bool

namespace Receiver

def new : Receiver :=
  ⟨[], true⟩

/-- All that was sent has been taken or waits. -/
structure Gets (r : Receiver) (channel : Channel Json) (sent : List Json) : Prop where
  closed : channel.isClosed = !r.alive
  all : r.alive = true → r.taken ++ channel.waiting.toList = sent

theorem Gets.send {r : Receiver} {channel : Channel Json} {sent : List Json}
    (h : r.Gets channel sent) (message : Json) :
    r.Gets (channel.send message).2 (sent ++ [message]) := by
  refine ⟨(channel.isClosed_send message).trans h.closed, fun halive => ?_⟩
  have hopen : channel.isClosed = false := by rw [h.closed, halive]; rfl
  rw [Channel.waiting_send, hopen, if_neg Bool.false_ne_true, Array.toList_push,
    ← List.append_assoc, h.all halive]

end Receiver

namespace Host

variable {host host' : Host} {receivers : Nat → Receiver} {calls : List Posting}

/-- Each receiver gets what the calls have sent to its port. -/
def Delivers (host : Host) (receivers : Nat → Receiver) (calls : List Posting) : Prop :=
  ∃ ports, host.ports? = some ports ∧ ∀ (k : Nat) (channel : Channel Json),
    ports[k]? = some channel → (receivers k).Gets channel (Posting.sent k calls)

theorem Delivers.congr (h : host.Delivers receivers calls) (hports : host'.ports? = host.ports?) :
    host'.Delivers receivers calls := by
  obtain ⟨ports, hsome, hall⟩ := h
  exact ⟨ports, hports.trans hsome, hall⟩

theorem ports?_postToPort {ports : Array (Channel Json)} (hports : host.ports? = some ports)
    (port : Nat) (message : Json) :
    (host.postToPort port message).ports? =
      some (ports.modify port fun channel => (channel.send message).2) := by
  obtain ⟨location, env, log, closing, wrappers, role⟩ := host
  cases role with
  | dedicated => exact nomatch hports
  | shared name ports =>
      obtain rfl := Option.some.inj hports
      rfl

theorem size_postToPort (host : Host) (port : Nat) (message : Json) :
    (host.postToPort port message).ports?.map Array.size = host.ports?.map Array.size := by
  obtain ⟨location, env, log, closing, wrappers, role⟩ := host
  cases role with
  | dedicated => rfl
  | shared => exact congrArg some Array.size_modify

theorem Delivers.post (h : host.Delivers receivers calls) {p : Posting} {message : Json}
    (hmessage : p.message? = some message) :
    (host.postToPort p.port message).Delivers receivers (calls ++ [p]) := by
  obtain ⟨ports, hsome, hall⟩ := h
  refine ⟨_, ports?_postToPort hsome p.port message, fun k channel hchannel => ?_⟩
  rw [Array.getElem?_modify] at hchannel
  rw [Posting.sent_concat]
  split at hchannel
  · next hport =>
    subst hport
    obtain ⟨before, hbefore, rfl⟩ := Option.map_eq_some_iff.1 hchannel
    rw [if_pos rfl, hmessage]
    exact (hall _ before hbefore).send message
  · next hport =>
    rw [if_neg hport, Option.toList_none, List.append_nil]
    exact hall k channel hchannel

/-- A call that cannot clone its argument sends nothing. -/
theorem Delivers.refuse (h : host.Delivers receivers calls) {p : Posting}
    (hmessage : p.message? = none) : host.Delivers receivers (calls ++ [p]) := by
  obtain ⟨ports, hsome, hall⟩ := h
  refine ⟨ports, hsome, fun k channel hchannel => ?_⟩
  rw [Posting.sent_concat, hmessage, ite_self, Option.toList_none, List.append_nil]
  exact hall k channel hchannel

theorem ports?_connect {n : Nat} (hconnect : host.connect? = some (n, host')) :
    ∃ ports, host.ports? = some ports ∧ ports.size = n ∧ host'.ports? = some (ports.push .new) := by
  obtain ⟨location, env, log, closing, wrappers, role⟩ := host
  cases role with
  | dedicated => exact nomatch hconnect
  | shared name ports =>
      obtain ⟨rfl, rfl⟩ := Prod.mk.inj (Option.some.inj hconnect)
      exact ⟨ports, rfl, rfl, rfl⟩

theorem Delivers.connect (h : host.Delivers receivers calls) {n : Nat}
    (hconnect : host.connect? = some (n, host')) (hreceiver : receivers n = .new)
    (hsent : Posting.sent n calls = []) : host'.Delivers receivers calls := by
  obtain ⟨ports, hsome, hall⟩ := h
  obtain ⟨ports', hsome', rfl, hports⟩ := ports?_connect hconnect
  obtain rfl := Option.some.inj (hsome.symm.trans hsome')
  refine ⟨_, hports, fun k channel hchannel => ?_⟩
  rw [Array.getElem?_push] at hchannel
  split at hchannel
  · next hnew =>
    subst hnew
    obtain rfl := Option.some.inj hchannel
    rw [hreceiver, hsent]
    exact ⟨rfl, fun _ => rfl⟩
  · exact hall k channel hchannel

end Host

/-! ## Runs -/

/--
What holds of a heap, a host and the calls of port functions so far, before which there have been
others.
-/
structure Tallied (receivers : Nat → Receiver) (past : List Posting) (made : Nat → ObjectId)
    (n : Nat) (heap : Heap) (host : Host) (calls : List Posting) : Prop where
  wired : heap.Wired made n
  ports : host.ports?.map Array.size = some n
  unused : ∀ k, n ≤ k → receivers k = .new
  delivers : host.Delivers receivers (past ++ calls)
  addressed : ∀ p ∈ past ++ calls, p.Addressed made n
  meanwhile : ∀ before p, before ++ [p] <+: calls →
    p.world.host.Delivers receivers (past ++ before)

namespace Tallied

variable {receivers : Nat → Receiver} {past calls : List Posting} {made : Nat → ObjectId} {n : Nat}
  {heap heap' : Heap} {host host' : Host}

theorem withHeap (ht : Tallied receivers past made n heap host calls) (hw : heap'.Wired made n) :
    Tallied receivers past made n heap' host calls :=
  ⟨hw, ht.ports, ht.unused, ht.delivers, ht.addressed, ht.meanwhile⟩

theorem withHost (ht : Tallied receivers past made n heap host calls)
    (hports : host'.ports? = host.ports?) : Tallied receivers past made n heap host' calls :=
  ⟨ht.wired, hports ▸ ht.ports, ht.unused, ht.delivers.congr hports, ht.addressed, ht.meanwhile⟩

/-- A call that has been put on record, with what it has made of the host. -/
theorem call (ht : Tallied receivers past made n heap host calls) {p : Posting}
    (hp : p.Addressed made n) (hbefore : p.world.host = host)
    (hports : host'.ports?.map Array.size = host.ports?.map Array.size)
    (hdelivers : host'.Delivers receivers (past ++ calls ++ [p])) :
    Tallied receivers past made n heap host' (calls ++ [p]) := by
  refine ⟨ht.wired, hports.trans ht.ports, ht.unused, ?_, fun q hq => ?_, fun before q hq => ?_⟩
  · rwa [← List.append_assoc]
  · rw [← List.append_assoc] at hq
    rcases List.mem_append.1 hq with hq | hq
    · exact ht.addressed q hq
    · exact List.mem_singleton.1 hq ▸ hp
  · rcases List.prefix_concat_iff.1 hq with hq | hq
    · obtain ⟨rfl, hlast⟩ := List.append_inj' hq rfl
      obtain rfl := List.singleton_inj.1 hlast
      exact hbefore ▸ ht.delivers
    · exact ht.meanwhile before q hq

/-- A new port, whatever its function is going to be. -/
theorem connect (ht : Tallied receivers past made n heap host calls) {port : Nat}
    (hconnect : host.connect? = some (port, host')) (id : ObjectId) :
    port = n ∧ Tallied receivers past (Function.update made n id) (n + 1) heap host' calls := by
  obtain ⟨ports, hsome, hsize, hports⟩ := Host.ports?_connect hconnect
  have hn : port = n := by
    have hcount := ht.ports
    rw [hsome, Option.map_some, hsize] at hcount
    exact Option.some.inj hcount
  subst hn
  have hsame : ∀ k < port, Function.update made port id k = made k := fun k hk =>
    Function.update_of_ne (Nat.ne_of_lt hk) id made
  refine ⟨rfl, ht.wired.widen (Nat.le_succ port) hsame, ?_, fun k hk => ?_, ?_, fun p hp => ?_,
    ht.meanwhile⟩
  · rw [hports, Option.map_some, Array.size_push, hsize]
  · exact ht.unused k (Nat.le_of_succ_le hk)
  · refine ht.delivers.connect hconnect (ht.unused port (Nat.le_refl port)) ?_
    exact Posting.sent_of_lt (fun p hp => (ht.addressed p hp).below) (Nat.le_refl port)
  · exact (ht.addressed p hp).widen (Nat.le_succ port) hsame

end Tallied

/-- A run calls no port function but through the machine, which puts the call on record. -/
theorem Tallied.law (receivers : Nat → Receiver) (past calls : List Posting) (made : Nat → ObjectId)
    (n : Nat) : Machine.Law fun m =>
      Tallied receivers past made n m.heap m.host (calls ++ m.posts.reverse) where
  books _ _ := id
  nesting _ _ := id
  polls _ _ := id
  halt _ _ := id
  spend _ := id
  allocate _ _ ho hm := hm.withHeap (hm.wired.allocate ho)
  write _ w id hm := hm.withHeap (hm.wired.write w id)
  openChild _ _ _ := id
  bind _ _ _ _ := id
  host m _ hf hm := hm.withHost (hf.ports m.host)
  portCall s m port function args hport hm := by
    have hp : (⟨port, function, args, m.world⟩ : Posting).Addressed made n :=
      ⟨hm.wired.sound, hport, (hm.wired.port? hport).2, (hm.wired.port? hport).1⟩
    have hposts : calls ++ (m.post port function args).posts.reverse =
        calls ++ m.posts.reverse ++ [⟨port, function, args, m.world⟩] :=
      (congrArg (calls ++ ·) List.reverse_cons).trans (List.append_assoc _ _ _).symm
    have hdelivers := hm.delivers
    rw [Run.portCall_eq]
    cases hclone : m.heap.toJson (args.head?.getD .undefined) with
    | ok message =>
        have hmessage : (⟨port, function, args, m.world⟩ : Posting).message? = some message :=
          congrArg Except.toOption hclone
        exact hposts ▸ hm.call hp rfl (m.host.size_postToPort port message)
          (hdelivers.post hmessage)
    | error error =>
        have hmessage : (⟨port, function, args, m.world⟩ : Posting).message? = none :=
          congrArg Except.toOption hclone
        obtain ⟨hheap, -, hhost, hkept⟩ := Run.left_complain (.uncloneable error) s
          (m.post port function args) (α := Value)
        have hcalled := hposts ▸ hm.call hp rfl rfl (hdelivers.refuse hmessage)
        dsimp only
        rw [hheap, hhost, hkept, Heap.allocateError, Heap.left_map]
        exact hcalled.withHeap (hcalled.wired.allocate rfl)

/-! ## What a call comes to -/

/-- The message is sent, or there is none and the script hears of it. -/
inductive Run.Posted (m : Machine) (port : Nat) (function : Value) (args : List Value) :
    EStateM.Result Abrupt Machine Value → Prop
  | sent {message : Json} : m.heap.toJson (args.head?.getD .undefined) = .ok message →
      Posted m port function args (.ok .undefined
        { m.post port function args with host := m.host.postToPort port message })
  | refused {error : CloneError} {r : EStateM.Result Abrupt Machine Value} :
      m.heap.toJson (args.head?.getD .undefined) = .error error →
      Complains (.uncloneable error) (m.post port function args) r → Posted m port function args r

namespace Run

variable {m : Machine} {port : Nat} {function : Value}

theorem portCall_posted (hs : m.heap.Sound) (port : Nat) (function : Value) (args : List Value)
    (s : Setting) : Posted m port function args (portCall port function args s m) := by
  rw [portCall_eq]
  cases hclone : m.heap.toJson (args.head?.getD .undefined) with
  | ok message => exact .sent hclone
  | error error =>
      have hposted : (m.post port function args).heap.Sound := hs
      exact .refused hclone (complain_complains hposted (.uncloneable error) s)

theorem call_eq_portCall (hport : m.heap.port? function = some port) (self : Evaluator)
    (this : Value) (args : List Value) (name : String) (s : Setting) :
    self.call function this args name s m = portCall port function args s m := by
  have hkind : (function.object?.map fun id => (m.heap.object id).kind) =
      some (.native (.portPostMessage port)) := by
    obtain ⟨id, hid, hobject⟩ := Option.bind_eq_some_iff.1 hport
    rw [hid, Option.map_some]
    unfold HeapObject.port? at hobject
    split at hobject
    · next heq => rw [heq, Option.some.inj hobject]
    · exact nomatch hobject
  unfold Evaluator.call
  rw [bind_ok (rfl : Run.heap s m = .ok m.heap m), hkind]
  rfl

end Run

end ScriptHost

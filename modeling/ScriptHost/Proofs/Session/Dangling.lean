import ScriptHost.Proofs.Heap.Tombstone
import ScriptHost.Proofs.Session.Events

/-!
Two sessions that differ in the tombstones of their heaps alone. The tombstones make no difference,
since no handle that anything can get at is ever stale.
-/

namespace ScriptHost

/-- Every live object stands for itself, and nothing for anything else. -/
structure Renaming.Names (w : Renaming) (h : Heap) : Prop where
  same : ∀ a b, w.ever a b → a = b
  live : ∀ id o, h.find? id = some o → w.objects id id
  tombstone : h.tombstone = ⟨.ordinary, []⟩

namespace Renaming.Names

variable {w : Renaming} {h : Heap}

theorem eq (hn : w.Names h) (a b : ObjectId) (hab : w.objects a b) : a = b :=
  hn.same a b (w.known a b hab)

theorem object_eq (hn : w.Names h) {o o' : HeapObject} (ho : o.Matches w.objects w.scopes o') :
    o = o' :=
  (ho.mono hn.eq fun _ => id).eq_of_eq

theorem trail (hn : w.Names h) (hp : h.Paired w.objects w.scopes h) {s s' : Scopes}
    (hs : s.Paired w.objects w.scopes s') : h.Trail s s' (Reference.Known w.objects w.scopes) := by
  refine ⟨fun i hi => ?_, fun id o hid ho => ?_, fun i scope hi hscope => ?_⟩
  · obtain ⟨c, c', hc, hc', hmatch⟩ := hs.opened i hi
    obtain rfl : c = c' := (hmatch.mono hn.eq fun _ => id).eq_of_eq
    exact hc'.trans hc.symm
  · obtain ⟨other, hab⟩ := hid
    obtain ⟨o', _, ho', _, hmatch⟩ := hp.live id other hab
    obtain rfl := Option.some.inj (ho.symm.trans ho')
    exact hmatch.known
  · obtain ⟨c, _, hc, _, hmatch⟩ := hs.opened i hi
    obtain rfl := Option.some.inj (hscope.symm.trans hc)
    exact hmatch.known

theorem place (hn : w.Names h) (hs : h.Sound) (o : HeapObject) (baseline : Nat)
    {ha : ∀ d, ¬ w.objects (h.place o baseline).1 d}
    {hb : ∀ c, ¬ w.objects c (h.place o baseline).1} :
    (w.withPair (h.place o baseline).1 (h.place o baseline).1 ha hb).Names
      (h.place o baseline).2 := by
  refine ⟨fun c d hcd => ?_, fun id p hid => ?_, ?_⟩
  · rcases hcd with hcd | ⟨rfl, rfl⟩
    · exact hn.same c d hcd
    · rfl
  · by_cases hnew : id = (h.place o baseline).1
    · exact .inr ⟨hnew, hnew⟩
    · exact .inl (hn.live id p (((hs.place o baseline).elsewhere id hnew).symm.trans hid))
  · exact (h.alike_place o baseline).tombstone.trans hn.tombstone

theorem update (hn : w.Names h) {id : ObjectId} {o : HeapObject} (ho : h.find? id = some o)
    (f : HeapObject → HeapObject) : w.Names (h.update id f) := by
  refine ⟨hn.same, fun other p hp => ?_, ?_⟩
  · by_cases hother : other = id
    · exact hother ▸ hn.live id o ho
    · exact hn.live other p ((Heap.find?_update_of_ne ho f hother).symm.trans hp)
  · rw [Heap.update_of_find? ho]
    exact hn.tombstone

end Renaming.Names

namespace Heap

variable {h : Heap}

theorem update_congr {id : ObjectId} {o : HeapObject} (ho : h.find? id = some o)
    {f g : HeapObject → HeapObject} (hfg : f o = g o) : h.update id f = h.update id g := by
  obtain ⟨-, slot, hslot, -, hobject⟩ := find?_eq_some.1 ho
  rw [update_of_find? ho, update_of_find? ho]
  congr 1
  refine Array.ext_getElem? fun i => ?_
  rw [Array.getElem?_modify, Array.getElem?_modify]
  split
  · next hi =>
    subst hi
    rw [hslot, Option.map_some, Option.map_some, hobject, Option.map_some, Option.map_some, hfg]
  · rfl

theorem Paired.buried {R : ObjectId → ObjectId → Prop} {P : ScopeId → Prop}
    (hp : h.Paired R P h) (t : HeapObject) : h.Paired R P (h.buried t) :=
  ⟨rfl, hp.sound, ⟨hp.sound.vacant, hp.sound.nodup⟩, hp.live⟩

end Heap

namespace Bond

/-- A heap, and the same with a tombstone of any kind. -/
def graves (t : HeapObject) : Bond where
  Lenient := False
  Holds w h h' := h.Paired w.objects w.scopes h ∧ w.Names h ∧ h' = h.buried t
  paired hh := hh.2.2 ▸ hh.1.buried t
  withScope i hh := ⟨hh.1.mono fun _ => .inl, ⟨hh.2.1.same, hh.2.1.live, hh.2.1.tombstone⟩, hh.2.2⟩
  reckon f hh := by
    obtain ⟨hp, hn, rfl⟩ := hh
    exact ⟨hp.reckon _ _, ⟨hn.same, hn.live, hn.tombstone⟩, rfl⟩
  refuses hh := by
    obtain ⟨-, -, rfl⟩ := hh
    exact .inr fun _ _ => Iff.rfl
  update {w h h' a b f g} hh hab hfg := by
    obtain ⟨hp, hn, rfl⟩ := hh
    obtain rfl := hn.eq a b hab
    obtain ⟨o, -, ho, -, -⟩ := hp.live a a hab
    have hsame : ∀ p p', p.Matches w.objects w.scopes p' → f p = g p' := fun p p' hmatch =>
      hn.object_eq (hfg p p' hmatch)
    refine ⟨hp.update w.unique hab fun p p' hmatch => ?_, hn.update ho f, ?_⟩
    · obtain rfl := hn.object_eq hmatch
      have hpp := hfg p p hmatch
      rwa [← hsame p p hmatch] at hpp
    · obtain ⟨o', o'', ho', ho'', hmatch⟩ := hp.live a a hab
      obtain rfl := hn.object_eq hmatch
      rw [Heap.update_buried ho', Heap.update_congr ho' (hsame o' o' hmatch)]
  place {w h h' o o'} baseline hh ho := by
    obtain ⟨hp, hn, rfl⟩ := hh
    obtain rfl := hn.object_eq ho
    have hplaced := hp.sound.place o baseline
    obtain ⟨ha, hb⟩ := hp.stale hplaced hplaced
    rw [Heap.place_buried]
    have hstring := (h.alike_place o baseline).maxString
    exact ⟨ha, hb, hp.place ho hplaced hplaced hstring hstring, hn.place hp.sound o baseline, rfl⟩
  collect {w h h' s s' roots roots' scopes} hh hs hroots hscopes := by
    obtain ⟨hp, hn, rfl⟩ := hh
    obtain rfl := Value.Matches.list_eq (hroots.imp fun _ _ hv => hv.mono hn.eq)
    have hknown : ∀ id, .object id ∈ roots → Reference.Known w.objects w.scopes (.object id) :=
      fun id hid => exists_of_mem hroots hid
    have htidied (t : HeapObject) :
        (h.buried t).tidied s' roots scopes = (h.tidied s roots scopes).buried t :=
      (hn.trail hp hs).tidied t hs.size.symm hknown hscopes
    have hagain : h.tidied s' roots scopes = h.tidied s roots scopes :=
      calc h.tidied s' roots scopes
        _ = (h.tidied s roots scopes).buried h.tombstone := htidied h.tombstone
        _ = h.tidied s roots scopes := by
          rw [← (h.alike_tidied s roots scopes).tombstone]
          rfl
    obtain ⟨S, Q, hS, hkept, hp, hs, hroots, hscopes⟩ := hp.collected hs hroots hscopes
    rw [hagain] at hp hkept
    have hnames : (w.restrict Q hS 1).Names (h.tidied s roots scopes) := by
      refine ⟨hn.same, fun id o ho => ?_, ?_⟩
      · exact hkept id id o o (hn.live id o (Heap.find?_of_tidied ho)) ho ho
      · exact (h.alike_tidied s roots scopes).tombstone.trans hn.tombstone
    exact ⟨w.restrict Q hS 1, w.after_restrict Q hS 1, ⟨hp, hnames, htidied t⟩, hs, hroots, hscopes⟩

end Bond

/-! ## Environments without stale handles -/

namespace Environment

/-- A scope that the global scope or the closure of a live function leads to. -/
inductive Visible (e : Environment) : ScopeId → Prop
  | global {g : GlobalScope} : e.global = some g → Visible e g.scope
  | closure {id : ObjectId} {o : HeapObject} {i : ScopeId} :
      e.heap.find? id = some o → o.closure? = some i → Visible e i
  | parent {i j : ScopeId} {scope : Scope} :
      Visible e i → e.scopes.get? i = some scope → scope.parent = some j → Visible e j

/-- Whatever anything can get at is a primitive or a live object, and the tombstone is as new. -/
structure NoDangling (e : Environment) : Prop where
  objects : ∀ id o, e.heap.find? id = some o → ∀ v ∈ o.values, e.heap.owns v = true
  scopes : ∀ i, e.Visible i → ∃ scope, e.scopes.get? i = some scope ∧
    ∀ p ∈ scope.bindings, e.heap.owns p.2.value = true
  pending : ∀ v, e.pending = some v → e.heap.owns v = true
  global : ∀ g, e.global = some g → e.heap.isLive g.object = true
  tombstone : e.heap.tombstone = ⟨.ordinary, []⟩

end Environment

theorem Heap.Paired.owns_of_mem {R : ObjectId → ObjectId → Prop} {P : ScopeId → Prop} {h h' : Heap}
    (hp : h.Paired R P h') {vs vs' : List Value} (hvs : List.Forall₂ (Value.Matches R) vs vs')
    {v : Value} (hv : v ∈ vs) : h.owns v = true := by
  cases v with
  | object id =>
    obtain ⟨other, hab⟩ := exists_of_mem hvs hv
    obtain ⟨o, -, ho, -⟩ := hp.live id other hab
    exact isLive_iff.2 ⟨o, ho⟩
  | _ => rfl

namespace Bond

variable {t : HeapObject} {w : Renaming} {e e' : Environment} {s s' : Session}

theorem Environments.opened_of_visible (hE : (graves t).Environments w e e') {i : ScopeId}
    (hi : e.Visible i) : w.scopes i := by
  obtain ⟨hp, hn, -⟩ := hE.heap
  induction hi with
  | global hg =>
    have hglobal := hE.global
    rw [hg] at hglobal
    generalize e'.global = y at hglobal
    cases hglobal with
    | some hgg => exact hgg.opened
  | @closure id o i ho hclosure =>
    obtain ⟨o', _, ho', _, hmatch⟩ := hp.live id id (hn.live id o ho)
    obtain rfl := Option.some.inj (ho.symm.trans ho')
    refine HeapObject.Matches.known hmatch (.scope i) (List.mem_append_right _ ?_)
    rw [hclosure]
    exact List.mem_cons_self
  | @parent i j scope _ hscope hparent ih =>
    obtain ⟨c, _, hc, _, hmatch⟩ := hE.scopes.opened i ih
    obtain rfl := Option.some.inj (hscope.symm.trans hc)
    exact hmatch.around j hparent

theorem Environments.noDangling (hE : (graves t).Environments w e e') : e.NoDangling := by
  obtain ⟨hp, hn, -⟩ := hE.heap
  refine ⟨fun id o ho v hv => ?_, fun i hi => ?_, fun v hv => ?_, fun g hg => ?_, hn.tombstone⟩
  · obtain ⟨o', _, ho', _, hmatch⟩ := hp.live id id (hn.live id o ho)
    obtain rfl := Option.some.inj (ho.symm.trans ho')
    exact hp.owns_of_mem (HeapObject.Matches.values_forall₂ hmatch) hv
  · obtain ⟨c, c', hc, -, hmatch⟩ := hE.scopes.opened i (hE.opened_of_visible hi)
    refine ⟨c, hc, fun p hpc => ?_⟩
    have hvalues : List.Forall₂ (Value.Matches w.objects) (c.bindings.map fun p => p.2.value)
        (c'.bindings.map fun p => p.2.value) :=
      List.rel_map (fun _ _ hpq => hpq.2.value) hmatch.bindings
    exact hp.owns_of_mem hvalues (List.mem_map_of_mem hpc)
  · have hpending := hE.pending
    rw [hv] at hpending
    generalize e'.pending = y at hpending
    cases hpending with
    | some hvv => exact hp.owns hvv
  · have hglobal := hE.global
    rw [hg] at hglobal
    generalize e'.global = y at hglobal
    cases hglobal with
    | some hgg => exact hp.owns (.object hgg.object)

theorem Sessions.offered (h : (graves t).Sessions w s s') (offer : Offer) :
    Offered w s.worker.environment s'.worker.environment (offer.resolve s.given)
      (offer.resolve s'.given) := by
  cases offer with
  | given n => exact h.offered_given n
  | value v =>
    obtain ⟨hp, hn, hburied⟩ := h.worker.environment.heap
    cases howns : s.worker.environment.heap.owns v with
    | false =>
      refine .inr ⟨howns, ?_⟩
      rw [hburied]
      exact howns
    | true =>
      refine .inl ?_
      cases v with
      | object id =>
        obtain ⟨o, ho⟩ := Heap.isLive_iff.1 howns
        exact .object (hn.live id o ho)
      | _ => exact .primitive rfl

end Bond

/-! ## Sessions -/

section Same

variable {R : ObjectId → ObjectId → Prop} (hR : ∀ a b, R a b → a = b)
include hR

theorem Reply.Matches.eq {r r' : Reply} (h : r.Matches R r') : r = r' := by
  cases h with
  | outcome ho =>
    cases ho with
    | value hv => rw [(hv.mono hR).eq_of_eq]
    | thrown message line hv => rw [(hv.mono hR).eq_of_eq]
    | _ => rfl
  | created hv => rw [(hv.mono hR).eq_of_eq]
  | _ => rfl

theorem Report.Matches.eq {p p' : Report} (h : p.Matches R p') : p = p' := by
  obtain ⟨value, kind, message, origin, line⟩ := p
  obtain ⟨value', kind', message', origin', line'⟩ := p'
  obtain ⟨hvalue, rfl, rfl, rfl, rfl⟩ := h
  obtain rfl : value = value' := (hvalue.mono hR).eq_of_eq
  rfl

theorem Event.Matches.eq {x y : Event} (h : x.Matches R y) : x = y := by
  obtain ⟨reply, host, reports⟩ := x
  obtain ⟨reply', host', reports'⟩ := y
  obtain ⟨hreply, rfl, hreports⟩ := h
  obtain rfl : reply = reply' := hreply.eq hR
  obtain rfl : reports = reports' :=
    List.forall₂_eq_eq_eq ▸ hreports.imp fun _ _ hp => Report.Matches.eq hR hp
  rfl

end Same

namespace Session

def buried (s : Session) (t : HeapObject) : Session :=
  { s with worker.environment.heap := s.worker.environment.heap.buried t }

theorem bonded_buried (arena : Nat) (host : Host) (limits : Limits) (reporting : Bool)
    (t : HeapObject) :
    (Bond.graves t).Sessions .blank (start arena host limits reporting)
      ((start arena host limits reporting).buried t) := by
  have hnone (id : ObjectId) : (Heap.empty arena limits).find? id = none :=
    Heap.find?_eq_none_of_size_le (Nat.zero_le id.index)
  have hnames : Renaming.blank.Names (Heap.empty arena limits) :=
    ⟨fun _ _ => False.elim, fun id _ ho => (nomatch (hnone id).symm.trans ho), rfl⟩
  have hheap : (Bond.graves t).Holds .blank (Heap.empty arena limits)
      ((Heap.empty arena limits).buried t) := ⟨.empty arena arena rfl, hnames, rfl⟩
  exact .fresh hheap (fun _ => id) limits.callDepth host limits.budget limits.budget reporting

theorem noDangling_after (arena : Nat) (host : Host) (limits : Limits) (reporting : Bool)
    (clocks : Nat → Nat → Nat) (turns : List Turn) :
    ((start arena host limits reporting).after clocks turns).worker.environment.NoDangling := by
  let s := start arena host limits reporting
  have hstart := bonded_buried arena host limits reporting ⟨.ordinary, []⟩
  have heven : (Bond.graves ⟨.ordinary, []⟩).Even s (s.buried ⟨.ordinary, []⟩) clocks clocks turns :=
    ⟨fun _ _ => rfl, fun _ _ offer _ _ _ _ hr => hr.offered offer⟩
  obtain ⟨-, v, -, hend, -⟩ := hstart.events heven False.elim
  exact hend.worker.environment.noDangling

/--
Whatever a host asks of a worker and offers to it, no handle that anything can get at is stale.
The object that stands for what is gone is never read or written: any other would do.
-/
theorem no_dangling_handle (arena : Nat) (host : Host) (limits : Limits) (reporting : Bool)
    (clocks : Nat → Nat → Nat) (turns : List Turn) :
    let s := start arena host limits reporting
    (s.after clocks turns).worker.environment.NoDangling ∧
      ∀ t : HeapObject, (s.buried t).events clocks turns = s.events clocks turns ∧
        ((s.buried t).after clocks turns).worker.environment.heap =
          (s.after clocks turns).worker.environment.heap.buried t := by
  intro s
  have hsame (t : HeapObject) :
      (s.after clocks turns).worker.environment.NoDangling ∧
        (s.buried t).events clocks turns = s.events clocks turns ∧
        ((s.buried t).after clocks turns).worker.environment.heap =
          (s.after clocks turns).worker.environment.heap.buried t := by
    have hstart : (Bond.graves t).Sessions .blank s (s.buried t) :=
      bonded_buried arena host limits reporting t
    have heven : (Bond.graves t).Even s (s.buried t) clocks clocks turns :=
      ⟨fun _ _ => rfl, fun _ _ offer _ _ _ _ hr => hr.offered offer⟩
    obtain ⟨R, v, -, hend, -, hever, hevents⟩ := hstart.events heven False.elim
    obtain ⟨-, hn, hburied⟩ := hend.worker.environment.heap
    refine ⟨hend.worker.environment.noDangling, List.ext_getElem? fun n => ?_, hburied⟩
    have hevent := hevents n
    generalize (s.events clocks turns)[n]? = x, ((s.buried t).events clocks turns)[n]? = y at hevent
    cases hevent with
    | none => rfl
    | some hxy => rw [hxy.eq fun a b hab => hn.same a b (hever n a b hab)]
  exact ⟨(hsame ⟨.ordinary, []⟩).1, fun t => (hsame t).2⟩

end Session

end ScriptHost

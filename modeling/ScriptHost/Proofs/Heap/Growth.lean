import ScriptHost.Heap.Clone
import ScriptHost.Proofs.Heap.Reachability

/-!
Heaps that objects have been added to. A collection that starts from what was there before frees
all of them, and leaves what it would have left without them.
-/

namespace ScriptHost

namespace Heap

variable {h k l : Heap} {id : ObjectId} {o : HeapObject} {s : Scopes} {roots : List Value}
  {scopes : List ScopeId} {r : Reference}

def residents (h : Heap) : Set ObjectId :=
  {id | h.isLive id = true}

theorem finite_residents (h : Heap) : h.residents.Finite := by
  refine ((Set.finite_lt_nat h.places.size).image h.handleAt).subset fun id hid => ?_
  obtain ⟨o, ho⟩ := isLive_iff.1 hid
  obtain ⟨-, slot, hslot, -⟩ := find?_eq_some.1 ho
  have hlt := (Array.getElem?_eq_some_iff.1 hslot).1
  exact ⟨id.index, hlt, (eq_handleAt ho).1⟩

theorem residents_congr (hfind : ∀ id, k.find? id = h.find? id) : k.residents = h.residents := by
  unfold residents isLive
  simp only [hfind]

/-- Places that were occupied are as before, and the books have grown like what they count. -/
structure Grown (h k : Heap) : Prop where
  sound : k.Sound
  arena : k.arena = h.arena
  places : ∀ (i : Nat) (slot : Slot), h.places[i]? = some slot →
    ∃ slot', k.places[i]? = some slot' ∧ slot'.generation = slot.generation ∧
      (slot.object.isSome → slot' = slot)
  live : ∃ n, k.live = h.live + n ∧ k.residents.ncard = h.residents.ncard + n
  used : ∃ n, k.used = h.used + n ∧ k.charged = h.charged + n

namespace Grown

theorem refl (hs : h.Sound) : h.Grown h :=
  ⟨hs, rfl, fun _ slot hslot => ⟨slot, hslot, rfl, fun _ => rfl⟩, ⟨0, rfl, rfl⟩, ⟨0, rfl, rfl⟩⟩

theorem trans (hk : h.Grown k) (hl : k.Grown l) : h.Grown l := by
  obtain ⟨m, hlive, hcount⟩ := hk.live
  obtain ⟨n, hlive', hcount'⟩ := hl.live
  obtain ⟨a, hused, hcharged⟩ := hk.used
  obtain ⟨b, hused', hcharged'⟩ := hl.used
  refine ⟨hl.sound, hl.arena.trans hk.arena, fun i slot hslot => ?_,
    ⟨m + n, by omega, by omega⟩, ⟨a + b, by omega, by omega⟩⟩
  obtain ⟨slot', hslot', hgeneration, hsame⟩ := hk.places i slot hslot
  obtain ⟨slot'', hslot'', hgeneration', hsame'⟩ := hl.places i slot' hslot'
  refine ⟨slot'', hslot'', hgeneration'.trans hgeneration, fun hsome => ?_⟩
  obtain rfl := hsame hsome
  exact hsame' hsome

theorem place_eq (hk : h.Grown k) (ho : h.find? id = some o) :
    k.places[id.index]? = h.places[id.index]? := by
  obtain ⟨-, slot, hslot, -, hobject⟩ := find?_eq_some.1 ho
  obtain ⟨slot', hslot', -, hsame⟩ := hk.places id.index slot hslot
  obtain rfl := hsame (by rw [hobject]; rfl)
  exact hslot'.trans hslot.symm

theorem find?_of_some (hk : h.Grown k) (ho : h.find? id = some o) : k.find? id = some o :=
  (find?_congr hk.arena (hk.place_eq ho)).trans ho

theorem find?_of_issued (hk : h.Grown k) (hid : h.Issued id) : k.find? id = h.find? id := by
  obtain ⟨harena, slot, hslot, hissued⟩ := hid
  obtain ⟨slot', hslot', hgeneration, hsame⟩ := hk.places id.index slot hslot
  cases hobject : slot.object with
  | some o =>
    obtain rfl := hsame (by rw [hobject]; rfl)
    exact find?_congr hk.arena (hslot'.trans hslot.symm)
  | none =>
    -- the place is vacant, so that the handle is older than its generation
    have hold : id.generation < slot.generation := by simpa [hobject] using hissued
    rw [find?_eq_none_of_vacant hslot hobject]
    refine Option.eq_none_iff_forall_ne_some.2 fun o ho => ?_
    obtain ⟨-, found, hfound, hthere, -⟩ := find?_eq_some.1 ho
    obtain rfl := Option.some.inj (hslot'.symm.trans hfound)
    rw [← hthere, hgeneration] at hold
    exact UInt32.lt_irrefl _ hold

theorem not_issued (hk : h.Grown k) (hnew : h.isLive id = false) (hlive : k.isLive id = true) :
    ¬ h.Issued id := by
  intro hid
  rw [isLive, hk.find?_of_issued hid, ← isLive, hnew] at hlive
  cases hlive

end Grown

/-! ## New objects -/

theorem Sound.residents_place (hs : h.Sound) (o : HeapObject) (baseline : Nat) :
    (h.place o baseline).2.residents.ncard = h.residents.ncard + 1 := by
  have hplaced := hs.place o baseline
  generalize (h.place o baseline).1 = new, (h.place o baseline).2 = k at hplaced
  have hinsert : k.residents = insert new h.residents := by
    ext id
    by_cases hid : id = new
    · subst hid
      simp [residents, isLive, hplaced.here]
    · simp [residents, isLive, hplaced.elsewhere id hid, hid]
  have hnew : new ∉ h.residents := by simp [residents, isLive, hplaced.stale]
  rw [hinsert, Set.ncard_insert_of_notMem hnew h.finite_residents]

theorem Sound.grown_place (hs : h.Sound) (o : HeapObject) :
    h.Grown ({ h with used := h.used + o.slots }.place o 0).2 := by
  rw [place_withUsed]
  have hplaced := hs.place o 0
  have hcharged := hs.charged_place o 0
  obtain ⟨generation, -, hold, hplaces⟩ := getElem?_place hs o 0
  refine ⟨⟨hplaced.sound.vacant, hplaced.sound.nodup⟩, (h.alike_place o 0).arena,
    fun i slot hslot => ?_, ⟨1, h.live_place o 0, hs.residents_place o 0⟩, ⟨o.slots, rfl, hcharged⟩⟩
  by_cases hi : i = (h.place o 0).1.index
  · subst hi
    refine ⟨⟨generation, 0, some o⟩, (hplaces _).trans (if_pos rfl), ?_⟩
    rcases hold with ⟨hnone, -⟩ | ⟨vacant, hvacant, hobject, hgeneration⟩
    · cases hnone.symm.trans hslot
    · obtain rfl := Option.some.inj (hvacant.symm.trans hslot)
      exact ⟨hgeneration.symm, fun hsome => by simp [hobject] at hsome⟩
  · exact ⟨slot, ((hplaces i).trans (if_neg hi)).trans hslot, rfl, fun _ => rfl⟩

/-- A step that, done or refused, has added objects at most. -/
def Adds {α : Type} (x : Step α) : Prop :=
  ∀ h : Heap, h.Sound → match x h with
    | .ok _ k => h.Grown k
    | .error r k => r = .memoryLimit ∧ h.Grown k

namespace Adds

variable {α β : Type} {x : Step α} {f : α → Step β}

theorem pure (a : α) : Adds (pure a : Step α) :=
  fun _ hs => .refl hs

theorem bind (hx : Adds x) (hf : ∀ a, Adds (f a)) : Adds (x >>= f) := by
  intro h hs
  have hfirst := hx h hs
  simp only [Bind.bind, EStateM.bind]
  cases hxh : x h with
  | error r k =>
    rw [hxh] at hfirst
    exact hfirst
  | ok a k =>
    rw [hxh] at hfirst
    have hthen := hf a k hfirst.sound
    dsimp only
    cases hfk : f a k with
    | error r l =>
      rw [hfk] at hthen
      exact ⟨hthen.1, hfirst.trans hthen.2⟩
    | ok b l =>
      rw [hfk] at hthen
      exact hfirst.trans hthen

theorem map {f : α → β} (hx : Adds x) : Adds (f <$> x) := by
  rw [map_eq_pure_bind]
  exact hx.bind fun a => .pure (f a)

theorem allocate (o : HeapObject) : Adds (allocate o) := by
  intro h hs
  rcases charge_cases o.slots 0 h with hno | ⟨hok, -⟩
  · simp only [Heap.allocate, Bind.bind, EStateM.bind, hno]
    exact ⟨trivial, .refl hs⟩
  · simp only [Heap.allocate, Bind.bind, EStateM.bind, hok]
    exact hs.grown_place o

end Adds

mutual

theorem adds_fromJson (json : Json) : Adds (fromJson json) := by
  cases json with
  | null | bool | integer | real | text => exact .pure _
  | list items => exact (adds_fromItems items #[]).bind fun _ => (Adds.allocate _).map
  | object members => exact (adds_fromMembers members #[]).bind fun _ => (Adds.allocate _).map

theorem adds_fromItems (items : List Json) (found : Array Value) : Adds (fromItems found items) := by
  cases items with
  | nil => exact .pure found
  | cons item rest =>
    exact (adds_fromJson item).bind fun value => adds_fromItems rest (found.push value)

theorem adds_fromMembers (members : List (String × Json)) (found : Array (String × Value)) :
    Adds (fromMembers found members) := by
  cases members with
  | nil => exact .pure found
  | cons member rest =>
    obtain ⟨key, item⟩ := member
    exact (adds_fromJson item).bind fun value => adds_fromMembers rest (found.push (key, value))

end

/-! ## What was there before -/

/-- Whatever roots and scopes lead to in this heap had been given out by it. -/
def Known (h : Heap) (s : Scopes) (roots : List Value) (scopes : List ScopeId) : Prop :=
  ∀ id, h.Reaches s roots scopes (.object id) → id.arena = h.arena → h.Issued id

theorem known_of_issued (hroots : ∀ id, .object id ∈ roots → h.Issued id)
    (hobjects : ∀ id o, h.find? id = some o → ∀ target, .object target ∈ o.references →
      h.Issued target)
    (hscopes : ∀ i c, s.get? i = some c → ∀ target, .object target ∈ c.references →
      h.Issued target) : h.Known s roots scopes := by
  intro id hid _
  cases hid with
  | root hroot => exact hroots id hroot
  | property _ ho hp =>
    exact hobjects _ _ ho id (HeapObject.mem_references_iff.2 (.inl ⟨_, id, hp, rfl⟩))
  | element _ ho hkind hitem =>
    exact hobjects _ _ ho id (HeapObject.mem_references_iff.2 (.inr (.inl ⟨_, id, hkind, hitem, rfl⟩)))
  | binding _ hc hp hb =>
    exact hscopes _ _ hc id (Scope.mem_references_iff.2 (.inl ⟨_, _, id, hp, hb, rfl⟩))

namespace Grown

theorem reaches_iff (hk : h.Grown k) (hknown : h.Known s roots scopes) :
    k.Reaches s roots scopes r ↔ h.Reaches s roots scopes r := by
  have hsame {id : ObjectId} {o : HeapObject} (hid : h.Reaches s roots scopes (.object id))
      (ho : k.find? id = some o) : h.find? id = some o := by
    have harena := (find?_eq_some.1 ho).1.trans hk.arena
    exact (hk.find?_of_issued (hknown id hid harena)).symm.trans ho
  constructor
  · intro hr
    induction hr with
    | root hroot => exact .root hroot
    | scope hscope => exact .scope hscope
    | property _ ho hp ih => exact .property ih (hsame ih ho) hp
    | element _ ho hkind hitem ih => exact .element ih (hsame ih ho) hkind hitem
    | closure _ ho hkind ih => exact .closure ih (hsame ih ho) hkind
    | binding _ hc hp hb ih => exact .binding ih hc hp hb
    | parent _ hc hp ih => exact .parent ih hc hp
  · intro hr
    induction hr with
    | root hroot => exact .root hroot
    | scope hscope => exact .scope hscope
    | property _ ho hp ih => exact .property ih (hk.find?_of_some ho) hp
    | element _ ho hkind hitem ih => exact .element ih (hk.find?_of_some ho) hkind hitem
    | closure _ ho hkind ih => exact .closure ih (hk.find?_of_some ho) hkind
    | binding _ hc hp hb ih => exact .binding ih hc hp hb
    | parent _ hc hp ih => exact .parent ih hc hp

theorem not_reaches (hk : h.Grown k) (hknown : h.Known s roots scopes)
    (hnew : h.isLive id = false) (hlive : k.isLive id = true) :
    ¬ k.Reaches s roots scopes (.object id) := by
  intro hid
  obtain ⟨o, ho⟩ := isLive_iff.1 hlive
  have harena := (find?_eq_some.1 ho).1.trans hk.arena
  exact hk.not_issued hnew hlive (hknown id ((hk.reaches_iff hknown).1 hid) harena)

end Grown

end Heap

end ScriptHost

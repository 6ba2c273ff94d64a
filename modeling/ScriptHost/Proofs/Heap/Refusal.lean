import ScriptHost.Proofs.Heap.Growth

/-!
A step that the budget forbids leaves the heap as it was, or, if it comes after others of its kind,
with nothing but garbage that the next collection frees.
-/

namespace ScriptHost

namespace Heap

variable {h k : Heap} {id : ObjectId} {o : HeapObject} {s : Scopes} {roots : List Value}
  {scopes : List ScopeId}

/-! ## The books of a collection -/

theorem freePlace_books (h : Heap) (i : Nat) :
    ∃ n, (h.freePlace i).charged + n = h.charged ∧ (h.freePlace i).used = h.used - n := by
  rcases h.used_freePlace i with hsame | ⟨slot, o, hslot, ho, hused⟩
  · rw [hsame]
    exact ⟨0, rfl, rfl⟩
  · have htotal := h.total_freePlace h.baselines i
    rw [excess_of_place hslot ho, baselines_eq hslot] at htotal
    refine ⟨o.slots - slot.baseline, ?_, hused⟩
    rwa [charged_eq_total, charged_eq_total, baselines_freePlace]

theorem sweep_books (h : Heap) (m : Marks) (indexes : List Nat) :
    ∃ n, (h.sweep m indexes).charged + n = h.charged ∧ (h.sweep m indexes).used = h.used - n := by
  induction indexes generalizing h with
  | nil => exact ⟨0, rfl, rfl⟩
  | cons index rest ih =>
    rw [sweep]
    split
    · exact ih h
    · obtain ⟨a, hcharged, hused⟩ := h.freePlace_books index
      obtain ⟨b, hcharged', hused'⟩ := ih (h.freePlace index)
      exact ⟨a + b, by omega, by omega⟩

theorem collect_books (h : Heap) (s : Scopes) (roots : List Value) (scopes : List ScopeId) :
    ∃ n, (h.collect s roots scopes).2.charged + n = h.charged ∧
      (h.collect s roots scopes).2.used = h.used - n :=
  h.sweep_books (h.rootMarks s roots scopes) (List.range h.places.size)

theorem find?_collect : (h.collect s roots scopes).2.find? id = some o ↔
    h.find? id = some o ∧ h.Reaches s roots scopes (.object id) := by
  obtain ⟨hkept, -, hold, -⟩ := h.collect_exact s roots scopes
  constructor
  · intro ho
    exact ⟨hold id o ho, (hkept id o (hold id o ho)).1 ho⟩
  · rintro ⟨ho, hid⟩
    exact (hkept id o ho).2 hid

theorem collect_count (h : Heap) (s : Scopes) (roots : List Value) (scopes : List ScopeId) :
    ∃ n, (h.collect s roots scopes).2.residents.ncard + n = h.residents.ncard ∧
      (h.collect s roots scopes).2.live = h.live - n := by
  refine ⟨{id | h.isLive id = true ∧ ¬ h.Reaches s roots scopes (.object id)}.ncard, ?_, ?_⟩
  · have hresidents : (h.collect s roots scopes).2.residents =
        h.residents ∩ {id | h.Reaches s roots scopes (.object id)} := by
      ext id
      simp [residents, isLive_iff, find?_collect]
    rw [hresidents]
    exact Set.ncard_inter_add_ncard_sdiff_eq_ncard _ _ h.finite_residents
  · rw [unmarked_rootMarks]
    exact h.live_sweep (h.rootMarks s roots scopes) List.nodup_range

theorem place_collect (ho : (h.collect s roots scopes).2.find? id = some o) :
    (h.collect s roots scopes).2.places[id.index]? = h.places[id.index]? := by
  obtain ⟨m, hk, -⟩ := h.collect_kept s roots scopes
  rw [hk.places]
  simp only [hk.marked ho, if_true, Option.map_id']

/-! ## A collection after additions -/

namespace Grown

variable (hk : h.Grown k) (hknown : h.Known s roots scopes)
include hk hknown

theorem find?_collect_eq (id : ObjectId) :
    (k.collect s roots scopes).2.find? id = (h.collect s roots scopes).2.find? id := by
  ext o
  simp only [find?_collect, hk.reaches_iff hknown]
  constructor
  · rintro ⟨ho, hid⟩
    have harena := (find?_eq_some.1 ho).1.trans hk.arena
    exact ⟨(hk.find?_of_issued (hknown id hid harena)).symm.trans ho, hid⟩
  · rintro ⟨ho, hid⟩
    exact ⟨hk.find?_of_some ho, hid⟩

theorem place_collect_eq (ho : (h.collect s roots scopes).2.find? id = some o) :
    (k.collect s roots scopes).2.places[id.index]? =
      (h.collect s roots scopes).2.places[id.index]? := by
  rw [place_collect ho, place_collect ((hk.find?_collect_eq hknown id).trans ho)]
  exact hk.place_eq (find?_collect.1 ho).1

theorem excess_collect_eq (i : Nat) :
    (k.collect s roots scopes).2.excess (k.collect s roots scopes).2.baselines i =
      (h.collect s roots scopes).2.excess (h.collect s roots scopes).2.baselines i := by
  have hfind := hk.find?_collect_eq hknown
  have hplace : ∀ id o, (h.collect s roots scopes).2.find? id = some o →
      (k.collect s roots scopes).2.places[id.index]? =
        (h.collect s roots scopes).2.places[id.index]? := fun id o => hk.place_collect_eq hknown
  generalize (k.collect s roots scopes).2 = after, (h.collect s roots scopes).2 = before
    at hfind hplace
  cases hbefore : before.occupant i with
  | some o =>
    have hsame := hplace _ o ((before.find?_handleAt i).trans hbefore)
    change after.places[i]? = before.places[i]? at hsame
    rw [excess, excess, baselines, baselines, hsame]
  | none =>
    have hafter : after.occupant i = none := by
      by_contra hsome
      obtain ⟨o, ho⟩ := Option.ne_none_iff_exists'.1 hsome
      have hthere := (hfind _).symm.trans ((after.find?_handleAt i).trans ho)
      cases hbefore.symm.trans (eq_handleAt hthere).2
    rw [excess_of_vacant hafter, excess_of_vacant hbefore]

theorem charged_collect_eq :
    (k.collect s roots scopes).2.charged = (h.collect s roots scopes).2.charged := by
  have hexcess := hk.excess_collect_eq hknown
  generalize (k.collect s roots scopes).2 = after, (h.collect s roots scopes).2 = before
    at hexcess
  rw [charged_eq_total, charged_eq_total,
    after.total_eq_sum _ (Nat.le_max_left after.places.size before.places.size),
    before.total_eq_sum _ (Nat.le_max_right after.places.size before.places.size)]
  exact Finset.sum_congr rfl fun i _ => hexcess i

theorem live_collect_eq :
    (k.collect s roots scopes).2.live = (h.collect s roots scopes).2.live := by
  have hresidents := congrArg Set.ncard (residents_congr (hk.find?_collect_eq hknown))
  obtain ⟨n, hlive, hcount⟩ := hk.live
  obtain ⟨a, hcount', hlive'⟩ := k.collect_count s roots scopes
  obtain ⟨b, hcount'', hlive''⟩ := h.collect_count s roots scopes
  omega

theorem used_collect_eq :
    (k.collect s roots scopes).2.used = (h.collect s roots scopes).2.used := by
  have hcharged := hk.charged_collect_eq hknown
  obtain ⟨n, hused, hbooks⟩ := hk.used
  obtain ⟨a, hbooks', hused'⟩ := k.collect_books s roots scopes
  obtain ⟨b, hbooks'', hused''⟩ := h.collect_books s roots scopes
  omega

end Grown

/-! ## Refusals -/

variable {reason : TerminationReason}

theorem allocate_refused (hno : allocate o h = .error reason k) :
    reason = .memoryLimit ∧ k = h := by
  simp only [allocate, Bind.bind, EStateM.bind] at hno
  rcases charge_cases o.slots 0 h with hcharge | ⟨hcharge, -⟩
  · rw [hcharge] at hno
    obtain ⟨rfl, rfl⟩ := EStateM.Result.error.inj hno
    exact ⟨rfl, rfl⟩
  · rw [hcharge] at hno
    cases hno

theorem write_refused {w : Write} (hno : w.step id h = .error reason k) :
    reason = .memoryLimit ∧ k = h := by
  rcases w.step_result id h with hstep | ⟨hstep, -⟩
  · obtain ⟨rfl, rfl⟩ := EStateM.Result.error.inj (hno.symm.trans hstep)
    exact ⟨rfl, rfl⟩
  · cases hno.symm.trans hstep

theorem write_of_not_grows {w : Write} (hw : w.suits (h.object id) = true)
    (hslots : (w.change (h.object id)).slots ≤ (h.object id).slots) :
    w.step id h = .ok () (w.result id h) := by
  rcases w.step_result id h with hno | ⟨hok, -⟩
  · have hcost := w.grows_of_refused id hno
    have hchange := Write.slots_change hw
    omega
  · exact hok

theorem fromJson_refused (hs : h.Sound) {json : Json} (hno : fromJson json h = .error reason k) :
    reason = .memoryLimit ∧ h.Grown k := by
  have hadds := adds_fromJson json h hs
  rwa [hno] at hadds

/--
An allocation or a write that is refused has changed nothing, and no write is refused that does not
make its object larger, but for values pushed onto what is no array. A document that is refused
midway leaves all objects as they were, and new ones that nothing from before leads to. A collection
frees these and ends as it would have without them.
-/
theorem memory_limit_intact (h : Heap) :
    (∀ o reason k, allocate o h = .error reason k → reason = .memoryLimit ∧ k = h) ∧
    (∀ id (w : Write) reason k, w.step id h = .error reason k → reason = .memoryLimit ∧ k = h) ∧
    (∀ id (w : Write), w.suits (h.object id) = true →
      (w.change (h.object id)).slots ≤ (h.object id).slots → ∃ k, w.step id h = .ok () k) ∧
    (h.Sound → ∀ json reason k, fromJson json h = .error reason k → reason = .memoryLimit ∧
      (∀ id o, h.find? id = some o → k.find? id = some o) ∧
      ∀ s roots scopes, h.Known s roots scopes →
        let before := (h.collect s roots scopes).2
        let after := (k.collect s roots scopes).2
        (∀ id, h.isLive id = false → k.isLive id = true → ¬ h.Issued id ∧
          ¬ k.Reaches s roots scopes (.object id) ∧ after.isLive id = false) ∧
        (∀ id, after.find? id = before.find? id) ∧ after.live = before.live ∧
        after.used = before.used) := by
  refine ⟨fun o reason k => allocate_refused, fun id w reason k => write_refused,
    fun id w hw hslots => ⟨_, write_of_not_grows hw hslots⟩, fun hs json reason k hno => ?_⟩
  obtain ⟨hreason, hk⟩ := fromJson_refused hs hno
  refine ⟨hreason, fun id o => hk.find?_of_some, fun s roots scopes hknown => ?_⟩
  refine ⟨fun id hnew hlive => ?_, hk.find?_collect_eq hknown, hk.live_collect_eq hknown,
    hk.used_collect_eq hknown⟩
  have hunreached := hk.not_reaches hknown hnew hlive
  obtain ⟨o, ho⟩ := isLive_iff.1 hlive
  obtain ⟨hnone, -⟩ := freed_of_not_reaches hunreached ho
  refine ⟨hk.not_issued hnew hlive, hunreached, ?_⟩
  rw [isLive, hnone, Option.isSome_none]

/--
An array too long, a hole too wide, an element that takes no more than the one before it where
everything is used up, and an object that is refused once its parts are there.
-/
theorem memory_limit_intact_midway :
    let made (slots : Nat) : Heap := (Holding.run ⟨.empty 1 { heapSlots := slots }, []⟩
      [.allocate ⟨.array #[.null], []⟩]).heap
    let full := made 2
    let h := made 5
    let left {α : Type} (x : Step α) : Heap := match x h with
      | .ok _ k | .error _ k => k
    let long : HeapObject := ⟨.array #[.null, .null, .null, .null], []⟩
    let hole : Write := .element 4 .null
    let other : Write := .element 0 (.bool true)
    let json : Json := .list [.list [], .object [("a", .list [.null])], .null]
    let k := left (fromJson json)
    let before := (h.collect .empty [.object ⟨1, 0, 0⟩] []).2
    let after := (k.collect .empty [.object ⟨1, 0, 0⟩] []).2
    left (allocate long) = h ∧ left (hole.step ⟨1, 0, 0⟩) = h ∧ full.used = full.maxSlots ∧
      (∃ k, other.step ⟨1, 0, 0⟩ full = .ok () k) ∧ k.live = h.live + 2 ∧
      after.live = before.live ∧ after.used = before.used := by
  intro made full h left long hole other json k before after
  have hs : h.Sound := ⟨fun _ hindex => absurd hindex List.not_mem_nil, List.nodup_nil⟩
  have hknown : h.Known .empty [.object ⟨1, 0, 0⟩] [] := by
    have hplaces : h.places = #[⟨0, 0, some ⟨.array #[.null], []⟩⟩] := rfl
    refine known_of_issued (fun id hid => ?_) (fun id o ho target htarget => ?_) fun i c hc => ?_
    · obtain rfl := Value.object.inj (List.mem_singleton.1 hid)
      exact ⟨rfl, _, rfl, .inr ⟨rfl, rfl⟩⟩
    · obtain ⟨-, slot, hslot, -, hobject⟩ := find?_eq_some.1 ho
      obtain rfl : slot = ⟨0, 0, some ⟨.array #[.null], []⟩⟩ := by
        simpa [hplaces] using Array.mem_of_getElem? hslot
      obtain rfl := Option.some.inj hobject
      exact absurd htarget List.not_mem_nil
    · simp [Scopes.get?, Scopes.empty] at hc
  obtain ⟨hallocate, hwrite, -, hdocument⟩ := memory_limit_intact h
  obtain ⟨-, -, hallowed, -⟩ := memory_limit_intact full
  obtain ⟨-, hlong⟩ := hallocate long .memoryLimit (left (allocate long)) rfl
  obtain ⟨-, hhole⟩ := hwrite ⟨1, 0, 0⟩ hole .memoryLimit (left (hole.step ⟨1, 0, 0⟩)) rfl
  obtain ⟨-, -, hcollect⟩ := hdocument hs json .memoryLimit k rfl
  obtain ⟨-, -, hlive, hused⟩ := hcollect .empty [.object ⟨1, 0, 0⟩] [] hknown
  exact ⟨hlong, hhole, rfl, hallowed ⟨1, 0, 0⟩ other rfl (by decide), rfl, hlive, hused⟩

/-- A push is charged before it turns out that there is no array to push onto. -/
theorem push_refused_without_growth :
    let h := (Holding.run ⟨.empty 1 { heapSlots := 1 }, []⟩ [.allocate ⟨.ordinary, []⟩]).heap
    let push : Write := .push [.null]
    h.isLive ⟨1, 0, 0⟩ = true ∧
      (push.change (h.object ⟨1, 0, 0⟩)).slots ≤ (h.object ⟨1, 0, 0⟩).slots ∧
      pushElements ⟨1, 0, 0⟩ [.null] h = .error .memoryLimit h ∧
      push.step ⟨1, 0, 0⟩ h = .error .memoryLimit h :=
  ⟨rfl, by decide, rfl, rfl⟩

end Heap

end ScriptHost

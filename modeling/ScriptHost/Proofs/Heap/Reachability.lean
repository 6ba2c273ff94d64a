import Mathlib.Data.Set.Card
import ScriptHost.Proofs.Heap.Accounts

/-!
A collection frees exactly what neither the roots nor the scopes lead to.
-/

namespace ScriptHost

/-! ## References -/

theorem Value.reference?_eq_some {v : Value} {r : Reference} :
    v.reference? = some r ↔ ∃ id, v = .object id ∧ .object id = r := by
  cases v <;> simp [reference?, object?]

theorem HeapObject.mem_references_iff {o : HeapObject} {r : Reference} :
    r ∈ o.references ↔
      (∃ key id, (key, Value.object id) ∈ o.properties ∧ .object id = r) ∨
      (∃ items id, o.kind = .array items ∧ Value.object id ∈ items ∧ .object id = r) ∨
      ∃ code closure, o.kind = .function code closure ∧ .scope closure = r := by
  obtain ⟨kind, properties⟩ := o
  cases kind <;>
    simp [references, values, items, closure?, Value.reference?_eq_some, or_comm,
      @eq_comm _ r]

theorem Scope.mem_references_iff {c : Scope} {r : Reference} :
    r ∈ c.references ↔
      (∃ name b id, (name, b) ∈ c.bindings ∧ b.value = .object id ∧ .object id = r) ∨
      ∃ parent, c.parent = some parent ∧ .scope parent = r := by
  simp [references, Value.reference?_eq_some]

namespace Heap

/-! ## What is led to -/

section

variable (h : Heap) (s : Scopes) (roots : List Value) (scopes : List ScopeId)

/-- The objects and scopes that roots and scopes lead to; a stale handle leads no further. -/
inductive Reaches : Reference → Prop
  | root {id : ObjectId} : .object id ∈ roots → Reaches (.object id)
  | scope {id : ScopeId} : id ∈ scopes → Reaches (.scope id)
  | property {id target : ObjectId} {o : HeapObject} {key : String} : Reaches (.object id) →
      h.find? id = some o → (key, .object target) ∈ o.properties → Reaches (.object target)
  | element {id target : ObjectId} {o : HeapObject} {items : Array Value} : Reaches (.object id) →
      h.find? id = some o → o.kind = .array items → .object target ∈ items →
      Reaches (.object target)
  | closure {id : ObjectId} {o : HeapObject} {code : Source.Function} {closure : ScopeId} :
      Reaches (.object id) → h.find? id = some o → o.kind = .function code closure →
      Reaches (.scope closure)
  | binding {id : ScopeId} {c : Scope} {name : String} {b : Binding} {target : ObjectId} :
      Reaches (.scope id) → s.get? id = some c → (name, b) ∈ c.bindings →
      b.value = .object target → Reaches (.object target)
  | parent {id parent : ScopeId} {c : Scope} : Reaches (.scope id) → s.get? id = some c →
      c.parent = some parent → Reaches (.scope parent)

/-- The references that marking starts from. -/
def startingWork : List Reference :=
  roots.filterMap Value.reference? ++ scopes.map .scope

/-- The marks that decide what a collection keeps. -/
def rootMarks : Marks :=
  h.mark s (.none h.places.size s.size) (startingWork roots scopes)

end

variable {h : Heap} {s : Scopes} {roots : List Value} {scopes : List ScopeId} {m : Marks}
  {work : List Reference} {id : ObjectId} {o : HeapObject} {r : Reference}

namespace Reaches

theorem of_object (hid : h.Reaches s roots scopes (.object id)) (ho : h.find? id = some o)
    (hr : r ∈ o.references) : h.Reaches s roots scopes r := by
  rcases HeapObject.mem_references_iff.1 hr with
    ⟨key, target, hp, rfl⟩ | ⟨items, target, hkind, hitem, rfl⟩ | ⟨code, closure, hkind, rfl⟩
  · exact .property hid ho hp
  · exact .element hid ho hkind hitem
  · exact .closure hid ho hkind

theorem of_scope {id : ScopeId} {c : Scope} (hid : h.Reaches s roots scopes (.scope id))
    (hc : s.get? id = some c) (hr : r ∈ c.references) : h.Reaches s roots scopes r := by
  rcases Scope.mem_references_iff.1 hr with ⟨name, b, target, hp, hb, rfl⟩ | ⟨parent, hp, rfl⟩
  · exact .binding hid hc hp hb
  · exact .parent hid hc hp

theorem of_startingWork (hr : r ∈ startingWork roots scopes) : h.Reaches s roots scopes r := by
  rcases List.mem_append.1 hr with hr | hr
  · obtain ⟨id, rfl, hid⟩ := Value.mem_of_reference? hr
    exact .root hid
  · obtain ⟨id, hid, rfl⟩ := List.mem_map.1 hr
    exact .scope hid

/-- What is led to is behind any marks that are closed and have the roots and scopes. -/
theorem reached (hr : h.Reaches s roots scopes r) (hm : m.Closed h s [])
    (hstart : ∀ q ∈ startingWork roots scopes, m.Reached h s q) : m.Reached h s r := by
  have hobject {id : ObjectId} {o : HeapObject} {q : Reference} (hid : m.Reached h s (.object id))
      (ho : h.find? id = some o) (hq : q ∈ o.references) : m.Reached h s q := by
    simpa using hm.objects id o ho (hid o ho) q hq
  have hscope {id : ScopeId} {c : Scope} {q : Reference} (hid : m.Reached h s (.scope id))
      (hc : s.get? id = some c) (hq : q ∈ c.references) : m.Reached h s q := by
    simpa using hm.scopes id c hc (hid c hc) q hq
  induction hr with
  | root hid => exact hstart _ (List.mem_append_left _ (List.mem_filterMap.2 ⟨_, hid, rfl⟩))
  | scope hid => exact hstart _ (List.mem_append_right _ (List.mem_map_of_mem hid))
  | property _ ho hp ih =>
    exact hobject ih ho (HeapObject.mem_references_iff.2 (.inl ⟨_, _, hp, rfl⟩))
  | element _ ho hkind hitem ih =>
    exact hobject ih ho (HeapObject.mem_references_iff.2 (.inr (.inl ⟨_, _, hkind, hitem, rfl⟩)))
  | closure _ ho hkind ih =>
    exact hobject ih ho (HeapObject.mem_references_iff.2 (.inr (.inr ⟨_, _, hkind, rfl⟩)))
  | binding _ hc hp hb ih =>
    exact hscope ih hc (Scope.mem_references_iff.2 (.inl ⟨_, _, _, hp, hb, rfl⟩))
  | parent _ hc hp ih => exact hscope ih hc (Scope.mem_references_iff.2 (.inr ⟨_, hp, rfl⟩))

end Reaches

/-! ## Marking marks nothing else -/

/-- Every mark on a place is there for the sake of a live object that is led to. -/
def Justified (h : Heap) (lead : Reference → Prop) (m : Marks) : Prop :=
  ∀ i : Nat, m.objects[i]? = some true →
    ∃ id o, id.index = i ∧ h.find? id = some o ∧ lead (.object id)

theorem justified_none (lead : Reference → Prop) (objects scopes : Nat) :
    h.Justified lead (.none objects scopes) := by
  intro i hi
  simp [Marks.none, Array.getElem?_replicate] at hi

theorem Justified.markObject {lead : Reference → Prop} (hm : h.Justified lead m)
    (ho : h.find? id = some o) (hid : lead (.object id)) :
    h.Justified lead (m.markObject id.index) := by
  intro i hi
  rcases Marks.of_set hi with rfl | hi
  · exact ⟨id, o, rfl, ho, hid⟩
  · exact hm i hi

theorem mark_justified (hm : h.Justified (h.Reaches s roots scopes) m)
    (hwork : ∀ r ∈ work, h.Reaches s roots scopes r) :
    h.Justified (h.Reaches s roots scopes) (h.mark s m work) := by
  have hmore {q : Reference} {more work : List Reference}
      (hq : ∀ r ∈ more, h.Reaches s roots scopes r)
      (hwork : ∀ r ∈ q :: work, h.Reaches s roots scopes r) :
      ∀ r ∈ more ++ work, h.Reaches s roots scopes r := by
    intro r hr
    rcases List.mem_append.1 hr with hr | hr
    · exact hq r hr
    · exact hwork r (List.mem_cons_of_mem _ hr)
  induction m, work using Heap.mark.induct h s with
  | case1 m =>
    rw [mark_nil]
    exact hm
  | case2 m id work o ho hmark ih =>
    have hid := hwork _ List.mem_cons_self
    rw [mark_object ho hmark]
    exact ih (hm.markObject ho hid) (hmore (fun r hr => hid.of_object ho hr) hwork)
  | case3 m id work o ho hmark ih =>
    rw [mark_object_done ho hmark]
    exact ih hm fun r hr => hwork r (List.mem_cons_of_mem _ hr)
  | case4 m id work ho ih =>
    rw [mark_object_gone ho]
    exact ih hm fun r hr => hwork r (List.mem_cons_of_mem _ hr)
  | case5 m id work c hc hmark ih =>
    have hid := hwork _ List.mem_cons_self
    rw [mark_scope hc hmark]
    exact ih hm (hmore (fun r hr => hid.of_scope hc hr) hwork)
  | case6 m id work c hc hmark ih =>
    rw [mark_scope_done hc hmark]
    exact ih hm fun r hr => hwork r (List.mem_cons_of_mem _ hr)
  | case7 m id work hc ih =>
    rw [mark_scope_gone hc]
    exact ih hm fun r hr => hwork r (List.mem_cons_of_mem _ hr)

/-- A live object is marked exactly if it is led to. -/
theorem marked_iff (ho : h.find? id = some o) :
    (h.rootMarks s roots scopes).objects[id.index]? = some true ↔
      h.Reaches s roots scopes (.object id) := by
  constructor
  · intro hmarked
    have hnone := h.justified_none (h.Reaches s roots scopes) h.places.size s.size
    obtain ⟨other, o', hindex, ho', hother⟩ :=
      mark_justified hnone (fun r => Reaches.of_startingWork) id.index hmarked
    obtain ⟨harena, slot, hslot, hgeneration, -⟩ := find?_eq_some.1 ho
    by_cases hne : other = id
    · exact hne ▸ hother
    · rw [find?_eq_none_of_ne id harena hslot hgeneration hne hindex] at ho'
      exact nomatch ho'
  · intro hid
    obtain ⟨hclosed, -, hstart⟩ := mark_closed (Marks.Closed.none h s (startingWork roots scopes))
    exact hid.reached hclosed hstart o ho

/-! ## Sweeping -/

theorem mem_free_freePlace (h : Heap) (index i : Nat) :
    i ∈ (h.freePlace index).free ↔ i ∈ h.free ∨ i = index ∧ (h.occupant i).isSome := by
  rcases h.occupant_freePlace index with ⟨hnone, hsame⟩ | ⟨⟨o, ho⟩, hfree, -⟩
  · rw [hsame]
    constructor
    · exact .inl
    · rintro (hi | ⟨rfl, hi⟩)
      · exact hi
      · simp [hnone] at hi
  · rw [hfree, List.mem_cons, or_comm]
    constructor
    · rintro (hi | rfl)
      · exact .inl hi
      · exact .inr ⟨rfl, by simp [ho]⟩
    · exact fun hi => hi.imp_right And.left

theorem occupant_of_freePlace (h : Heap) (index i : Nat) :
    (h.freePlace index).occupant i = if i = index then none else h.occupant i := by
  rw [occupant, getElem?_freePlace]
  split
  · cases h.places[i]? <;> simp [Slot.object_vacate]
  · rw [Option.map_id']
    rfl

/-- A sweep adds to the free places those of the objects that are not marked. -/
theorem mem_free_sweep (h : Heap) (m : Marks) (indexes : List Nat) (i : Nat) :
    i ∈ (h.sweep m indexes).free ↔
      i ∈ h.free ∨ i ∈ indexes ∧ (h.occupant i).isSome ∧ m.objects[i]? ≠ some true := by
  induction indexes generalizing h with
  | nil => simp [sweep]
  | cons index rest ih =>
    rw [sweep]
    split
    · next hmarked =>
      have hne : m.objects[i]? ≠ some true → i ≠ index := fun hi heq => hi (heq ▸ hmarked)
      rw [ih, List.mem_cons]
      refine or_congr_right ⟨fun hi => ⟨.inr hi.1, hi.2⟩, fun hi => ⟨?_, hi.2⟩⟩
      exact hi.1.resolve_left (hne hi.2.2)
    · next hunmarked =>
      rw [ih, mem_free_freePlace, occupant_of_freePlace]
      by_cases hi : i = index
      · subst hi
        simp [hunmarked]
      · simp [hi]

/-- The objects at the places swept that are not marked. -/
def unmarked (h : Heap) (m : Marks) (indexes : List Nat) : Nat :=
  indexes.countP fun i => (h.occupant i).isSome && m.objects[i]? != some true

theorem live_sweep (h : Heap) (m : Marks) {indexes : List Nat} (hnodup : indexes.Nodup) :
    (h.sweep m indexes).live = h.live - h.unmarked m indexes := by
  induction indexes generalizing h with
  | nil => rfl
  | cons index rest ih =>
    obtain ⟨hindex, hrest⟩ := List.nodup_cons.1 hnodup
    rw [sweep]
    split
    · next hmarked =>
      rw [ih h hrest]
      simp [unmarked, hmarked]
    · next hunmarked =>
      have hsame : (h.freePlace index).unmarked m rest = h.unmarked m rest := by
        apply List.countP_congr
        intro i hi
        rw [occupant_of_freePlace, if_neg (ne_of_mem_of_not_mem hi hindex)]
      rw [ih _ hrest, hsame]
      rcases h.occupant_freePlace index with ⟨hnone, hfree⟩ | ⟨⟨o, ho⟩, -, hlive⟩
      · rw [hfree]
        simp [unmarked, hnone]
      · rw [hlive]
        simp [unmarked, ho, hunmarked]
        omega

/-! ## Handles of live objects -/

/-- The handle of what is at a place. -/
def handleAt (h : Heap) (i : Nat) : ObjectId :=
  ⟨h.arena, i, (h.places[i]?.map Slot.generation).getD 0⟩

theorem eq_handleAt (ho : h.find? id = some o) :
    h.handleAt id.index = id ∧ h.occupant id.index = some o := by
  obtain ⟨harena, slot, hslot, hgeneration, hobject⟩ := find?_eq_some.1 ho
  simp [handleAt, occupant, hslot, hgeneration, hobject, ← harena]

theorem find?_handleAt (h : Heap) (i : Nat) : h.find? (h.handleAt i) = h.occupant i := by
  unfold find? handleAt occupant
  cases h.places[i]? <;> simp

/-- Live objects are counted place by place. -/
theorem ncard_live (h : Heap) (P : ObjectId → Prop) (p : Nat → Bool)
    (hp : ∀ id o, h.find? id = some o → (p id.index = true ↔ P id)) :
    {id | h.isLive id = true ∧ P id}.ncard =
      (List.range h.places.size).countP fun i => (h.occupant i).isSome && p i := by
  set counted := (List.range h.places.size).filter fun i => (h.occupant i).isSome && p i
  have himage : {id | h.isLive id = true ∧ P id} = h.handleAt '' (counted.toFinset : Set Nat) := by
    ext id
    constructor
    · rintro ⟨hlive, hid⟩
      obtain ⟨o, ho⟩ := isLive_iff.1 hlive
      obtain ⟨hhandle, hoccupant⟩ := eq_handleAt ho
      have hlt : id.index < h.places.size := by
        obtain ⟨-, slot, hslot, -⟩ := find?_eq_some.1 ho
        exact (Array.getElem?_eq_some_iff.1 hslot).1
      refine ⟨id.index, ?_, hhandle⟩
      simp [counted, hlt, hoccupant, (hp id o ho).2 hid]
    · rintro ⟨i, hi, rfl⟩
      simp [counted] at hi
      obtain ⟨-, hsome, hpi⟩ := hi
      obtain ⟨o, ho⟩ := Option.isSome_iff_exists.1 hsome
      have hfind : h.find? (h.handleAt i) = some o := (h.find?_handleAt i).trans ho
      exact ⟨isLive_iff.2 ⟨o, hfind⟩, (hp _ o hfind).1 hpi⟩
  have hinjective : Function.Injective h.handleAt := fun i j hij => congrArg ObjectId.index hij
  rw [himage, Set.ncard_image_of_injective _ hinjective, Set.ncard_coe_finset,
    List.toFinset_card_of_nodup (List.nodup_range.filter _), List.countP_eq_length_filter]

theorem Traced.exists_record {records : List Record} (ht : h.Traced records)
    (ho : h.find? id = some o) : ∃ r ∈ records, r.handle = id ∧ r.isLive := by
  obtain ⟨harena, slot, hslot, hgeneration, hobject⟩ := find?_eq_some.1 ho
  have hplace := ht.places id.index
  rw [hslot] at hplace
  generalize htenants : tenants id.index records = rs at hplace
  cases hplace with
  | vacant hvacant => simp [hobject] at hvacant
  | @occupied _ former r hsome hcontent hr =>
    obtain ⟨hmem, hindex⟩ := mem_tenants.1 (htenants ▸ List.mem_concat_self : r ∈ tenants _ records)
    refine ⟨r, hmem, ?_, by simp [Record.isLive, ← hcontent, hobject]⟩
    have hreached := (ht.arena r hmem).trans harena.symm
    obtain ⟨⟨arena, index, generation⟩, content⟩ := r
    obtain ⟨arena', index', generation'⟩ := id
    simp_all

theorem Traced.nodup_live {records : List Record} (ht : h.Traced records) :
    ((records.filter Record.isLive).map Record.handle).Nodup := by
  rw [List.nodup_iff_count_le_one]
  intro id
  have hone := (ht.places id.index).countP_live
  have hcount : ((records.filter Record.isLive).map Record.handle).count id ≤
      (tenants id.index records).countP Record.isLive := by
    simp only [List.count, List.countP_map, tenants, List.countP_filter]
    apply List.countP_mono_left
    intro r _ hr
    simp_all
  split at hone <;> omega

/-- A heap made by its operations knows how many live objects it has. -/
theorem Traced.live_eq {records : List Record} (ht : h.Traced records) :
    h.live = {id | h.isLive id = true}.ncard := by
  have hset : {id | h.isLive id = true} =
      (((records.filter Record.isLive).map Record.handle).toFinset : Set ObjectId) := by
    ext id
    simp only [Set.mem_ofPred_eq, isLive_iff, List.coe_toFinset, List.mem_map, List.mem_filter]
    constructor
    · rintro ⟨o, ho⟩
      obtain ⟨r, hr, hhandle, hlive⟩ := ht.exists_record ho
      exact ⟨r, ⟨hr, hlive⟩, hhandle⟩
    · rintro ⟨r, ⟨hr, hlive⟩, rfl⟩
      obtain ⟨o, ho⟩ := Option.isSome_iff_exists.1 hlive
      exact ⟨o, ht.find?_of_live hr ho⟩
  rw [hset, Set.ncard_coe_finset, List.toFinset_card_of_nodup ht.nodup_live, List.length_map,
    ← List.countP_eq_length_filter, ht.live]

/-! ## Collections -/

theorem getElem?_collect (h : Heap) (s : Scopes) (roots : List Value) (scopes : List ScopeId)
    (i : Nat) : (h.collect s roots scopes).2.places[i]? = h.places[i]?.map fun slot =>
      if (h.rootMarks s roots scopes).objects[i]? = some true then slot else slot.vacate := by
  change (h.sweep (h.rootMarks s roots scopes) (List.range h.places.size)).places[i]? = _
  rw [getElem?_sweep]
  cases hslot : h.places[i]? with
  | none => rfl
  | some slot =>
    have hlt := (Array.getElem?_eq_some_iff.1 hslot).1
    simp [hlt]

theorem find?_collect_of_reaches (hid : h.Reaches s roots scopes (.object id))
    (ho : h.find? id = some o) : (h.collect s roots scopes).2.find? id = some o := by
  obtain ⟨m, hk, -⟩ := h.collect_kept s roots scopes
  rw [← ho]
  refine find?_congr hk.alike.arena ?_
  simp [getElem?_collect, (marked_iff ho).2 hid]

/-- An object that is not led to leaves a free place, where no handle it had will do. -/
theorem freed_of_not_reaches (hid : ¬ h.Reaches s roots scopes (.object id))
    (ho : h.find? id = some o) :
    (h.collect s roots scopes).2.find? id = none ∧
      id.index ∈ (h.collect s roots scopes).2.free ∧
      ∃ baseline, (h.collect s roots scopes).2.places[id.index]? =
        some ⟨id.generation + 1, baseline, none⟩ := by
  have hunmarked := (not_congr (marked_iff ho)).2 hid
  obtain ⟨-, hoccupant⟩ := eq_handleAt ho
  obtain ⟨-, slot, hslot, hgeneration, hobject⟩ := find?_eq_some.1 ho
  have hlt := (Array.getElem?_eq_some_iff.1 hslot).1
  have hplace : (h.collect s roots scopes).2.places[id.index]? =
      some ⟨id.generation + 1, slot.baseline, none⟩ := by
    simp [getElem?_collect, hunmarked, hslot, Slot.vacate, hobject, hgeneration]
  refine ⟨find?_eq_none_of_vacant hplace rfl, ?_, slot.baseline, hplace⟩
  change id.index ∈ (h.sweep (h.rootMarks s roots scopes) (List.range h.places.size)).free
  simp [mem_free_sweep, hlt, hoccupant, hunmarked]

theorem find?_of_collect (ho : (h.collect s roots scopes).2.find? id = some o) :
    h.find? id = some o := by
  obtain ⟨m, hk, -⟩ := h.collect_kept s roots scopes
  rw [← hk.find?_eq (hk.marked ho), ho]

theorem unmarked_rootMarks (h : Heap) (s : Scopes) (roots : List Value) (scopes : List ScopeId) :
    {id | h.isLive id = true ∧ ¬ h.Reaches s roots scopes (.object id)}.ncard =
      h.unmarked (h.rootMarks s roots scopes) (List.range h.places.size) := by
  apply ncard_live
  intro id o ho
  simp [marked_iff ho]

/-- Of all live objects, a collection frees and counts those that are not led to. -/
theorem collect_fst_eq (hlive : h.live = {id | h.isLive id = true}.ncard) :
    (h.collect s roots scopes).1 =
      {id | h.isLive id = true ∧ ¬ h.Reaches s roots scopes (.object id)}.ncard := by
  have hfew : h.unmarked (h.rootMarks s roots scopes) (List.range h.places.size) ≤ h.live := by
    have hall := h.ncard_live (fun _ => True) (fun _ => true) (by simp)
    simp only [and_true, Bool.and_true] at hall
    rw [hlive, hall]
    apply List.countP_mono_left
    simp +contextual
  change h.live - (h.sweep (h.rootMarks s roots scopes) (List.range h.places.size)).live = _
  rw [live_sweep h _ List.nodup_range, unmarked_rootMarks]
  omega

theorem live_run (arena : Nat) (limits : Limits) (uses : List HeapUse) :
    (Holding.run ⟨.empty arena limits, []⟩ uses).heap.live =
      {id | (Holding.run ⟨.empty arena limits, []⟩ uses).heap.isLive id = true}.ncard := by
  have hrun {a : Holding} (ht : a.Traced) : (a.run uses).Traced := by
    induction uses generalizing a with
    | nil => exact ht
    | cons use rest ih => exact ih (ht.perform use)
  have hempty : (⟨.empty arena limits, []⟩ : Holding).Traced := Traced.empty arena limits
  exact Traced.live_eq (hrun hempty)

/--
What the roots and scopes lead to stays, behind the same handle and with the same content. The
handles of all other objects go stale, their places are free under a new generation, and they are
counted, provided the heap knew how many there were.
-/
theorem collect_exact (h : Heap) (s : Scopes) (roots : List Value) (scopes : List ScopeId) :
    let freed := (h.collect s roots scopes).1
    let after := (h.collect s roots scopes).2
    (∀ id o, h.find? id = some o →
      (after.find? id = some o ↔ h.Reaches s roots scopes (.object id))) ∧
    (∀ id, h.isLive id → ¬ h.Reaches s roots scopes (.object id) →
      after.isLive id = false ∧ id.index ∈ after.free ∧
        ∃ baseline, after.places[id.index]? = some ⟨id.generation + 1, baseline, none⟩) ∧
    (∀ id o, after.find? id = some o → h.find? id = some o) ∧
    (h.live = {id | h.isLive id = true}.ncard →
      freed = {id | h.isLive id = true ∧ ¬ h.Reaches s roots scopes (.object id)}.ncard) := by
  intro freed after
  refine ⟨fun id o ho => ⟨fun hafter => ?_, fun hid => find?_collect_of_reaches hid ho⟩,
    fun id hlive hid => ?_, fun id o => find?_of_collect, collect_fst_eq⟩
  · by_contra hid
    obtain ⟨hnone, -⟩ := freed_of_not_reaches hid ho
    exact nomatch hnone.symm.trans hafter
  · obtain ⟨o, ho⟩ := isLive_iff.1 hlive
    obtain ⟨hnone, hfree, hplace⟩ := freed_of_not_reaches hid ho
    exact ⟨by rw [isLive, hnone, Option.isSome_none], hfree, hplace⟩

/-- Of two circles of objects, one of which goes through a root. -/
theorem collect_exact_circles :
    let h := (Holding.run ⟨.empty 1 {}, []⟩ [.allocate ⟨.ordinary, []⟩, .allocate ⟨.array #[], []⟩,
      .allocate ⟨.ordinary, []⟩, .write ⟨1, 0, 0⟩ (.property "next" (.object ⟨1, 1, 0⟩)),
      .write ⟨1, 1, 0⟩ (.push [.object ⟨1, 0, 0⟩]),
      .write ⟨1, 2, 0⟩ (.property "self" (.object ⟨1, 2, 0⟩))]).heap
    let roots : List Value := [.null, .object ⟨1, 0, 0⟩, .object ⟨2, 2, 0⟩]
    h.live = {id | h.isLive id = true}.ncard ∧ (h.collect .empty roots []).1 =
      {id | h.isLive id = true ∧ ¬ h.Reaches .empty roots [] (.object id)}.ncard := by
  intro h roots
  have hlive : h.live = {id | h.isLive id = true}.ncard := live_run 1 {} _
  clear_value h
  obtain ⟨-, -, -, hcount⟩ := collect_exact h .empty roots []
  exact ⟨hlive, hcount hlive⟩

end Heap

end ScriptHost

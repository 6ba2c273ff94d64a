import ScriptHost.Proofs.Heap.Ageing

/-!
The objects that a heap was given, each with its handle, and what has become of them. The objects
put at one place followed each other there, so at most the last of them is left.
-/

namespace ScriptHost

/-- An object and its content, which is gone once the object was collected. -/
structure Record where
  handle : ObjectId
  content : Option HeapObject

namespace Record

def isLive (r : Record) : Bool :=
  r.content.isSome

def rewrite (id : ObjectId) (f : HeapObject → HeapObject) (r : Record) : Record :=
  if r.handle = id then { r with content := r.content.map f } else r

/-- The objects at some places are gone. -/
def expire (gone : Nat → Bool) (r : Record) : Record :=
  if gone r.handle.index then { r with content := none } else r

@[simp] theorem handle_rewrite (id : ObjectId) (f : HeapObject → HeapObject) (r : Record) :
    (r.rewrite id f).handle = r.handle := by
  unfold rewrite
  split <;> rfl

@[simp] theorem handle_expire (gone : Nat → Bool) (r : Record) :
    (r.expire gone).handle = r.handle := by
  unfold expire
  split <;> rfl

@[simp] theorem isLive_rewrite (id : ObjectId) (f : HeapObject → HeapObject) (r : Record) :
    (r.rewrite id f).isLive = r.isLive := by
  unfold rewrite
  split <;> simp [isLive]

theorem rewrite_of_dead {r : Record} (h : r.content = none) (id : ObjectId)
    (f : HeapObject → HeapObject) : r.rewrite id f = r := by
  obtain ⟨handle, content⟩ := r
  subst h
  simp [rewrite]

theorem rewrite_of_ne {r : Record} {id : ObjectId} (h : r.handle ≠ id)
    (f : HeapObject → HeapObject) : r.rewrite id f = r := by
  simp [rewrite, h]

theorem expire_of_dead {r : Record} (h : r.content = none) (gone : Nat → Bool) :
    r.expire gone = r := by
  obtain ⟨handle, content⟩ := r
  subst h
  simp [expire]

theorem expire_expire (gone gone' : Nat → Bool) (r : Record) :
    (r.expire gone).expire gone' = r.expire fun i => gone i || gone' i := by
  unfold expire
  by_cases hgone : gone r.handle.index <;> by_cases hgone' : gone' r.handle.index <;>
    simp [hgone, hgone']

end Record

theorem map_records_eq {f : Record → Record} {records : List Record}
    (hf : ∀ r ∈ records, f r = r) : records.map f = records := by
  conv_rhs => rw [← List.map_id records]
  exact List.map_congr_left hf

/-- The objects put at a place, one after the other. -/
def tenants (i : Nat) (records : List Record) : List Record :=
  records.filter fun r => r.handle.index = i

theorem mem_tenants {i : Nat} {records : List Record} {r : Record} :
    r ∈ tenants i records ↔ r ∈ records ∧ r.handle.index = i := by
  simp [tenants]

theorem tenants_map {f : Record → Record} (hf : ∀ r, (f r).handle = r.handle) (i : Nat)
    (records : List Record) : tenants i (records.map f) = (tenants i records).map f := by
  simp [tenants, List.filter_map, Function.comp_def, hf]

theorem tenants_append_singleton (i : Nat) (records : List Record) (r : Record) :
    tenants i (records ++ [r]) =
      if r.handle.index = i then tenants i records ++ [r] else tenants i records := by
  unfold tenants
  split <;> simp [List.filter_append, *]

/-- The generations count how many objects were at the place before. -/
def Numbered (records : List Record) : Prop :=
  ∀ (j : Nat) (r : Record), records[j]? = some r → r.handle.generation = UInt32.ofNat j

theorem Numbered.map {f : Record → Record} (hf : ∀ r, (f r).handle = r.handle)
    {records : List Record} (h : Numbered records) : Numbered (records.map f) := by
  intro j r hr
  rw [List.getElem?_map] at hr
  obtain ⟨old, hold, rfl⟩ := Option.map_eq_some_iff.1 hr
  rw [hf]
  exact h j old hold

theorem Numbered.append_singleton {records : List Record} {r : Record} (h : Numbered records)
    (hr : r.handle.generation = UInt32.ofNat records.length) : Numbered (records ++ [r]) := by
  intro j other hother
  rcases Nat.lt_trichotomy j records.length with hj | hj | hj
  · rw [List.getElem?_append_left hj] at hother
    exact h j other hother
  · subst hj
    simp only [List.getElem?_concat_length, Option.some.injEq] at hother
    exact hother ▸ hr
  · rw [List.getElem?_eq_none (by simp; omega)] at hother
    cases hother

/-- What a place holds after the objects put there. -/
inductive Tenancy : Option Slot → List Record → Prop
  | untouched : Tenancy none []
  | vacant {slot : Slot} {former : List Record} : slot.object = none →
      slot.generation = UInt32.ofNat former.length → Numbered former →
      (∀ r ∈ former, r.content = none) → Tenancy (some slot) former
  | occupied {slot : Slot} {former : List Record} {r : Record} : slot.object.isSome →
      slot.object = r.content → slot.generation = r.handle.generation → Numbered (former ++ [r]) →
      (∀ r ∈ former, r.content = none) → Tenancy (some slot) (former ++ [r])

namespace Tenancy

variable {place : Option Slot} {slot : Slot} {rs : List Record}

theorem take {former : List Record} {r : Record}
    (h : Tenancy place former)
    (hplace : place = none ∧ r.handle.generation = 0 ∨
      ∃ old, place = some old ∧ old.object = none ∧ old.generation = r.handle.generation)
    (hobject : slot.object = r.content) (hsome : slot.object.isSome)
    (hgeneration : slot.generation = r.handle.generation) :
    Tenancy (some slot) (former ++ [r]) := by
  cases h with
  | untouched =>
      rcases hplace with ⟨-, hzero⟩ | ⟨old, hold, -⟩
      · exact .occupied hsome hobject hgeneration
          (Numbered.append_singleton (fun j r hr => nomatch hr) hzero) (fun r hr => nomatch hr)
      · exact nomatch hold
  | vacant hvacant hcount hnumbered hdead =>
      rcases hplace with ⟨hnone, -⟩ | ⟨old, hold, -, hr⟩
      · exact nomatch hnone
      · obtain rfl := Option.some.inj hold
        exact .occupied hsome hobject hgeneration
          (hnumbered.append_singleton (hr.symm.trans hcount)) hdead
  | occupied hfull =>
      rcases hplace with ⟨hnone, -⟩ | ⟨old, hold, hvacant, -⟩
      · exact nomatch hnone
      · obtain rfl := Option.some.inj hold
        simp [hvacant] at hfull

theorem map_of_dead {f : Record → Record} (hf : ∀ r, r.content = none → f r = r)
    (hdead : ∀ r ∈ rs, r.content = none) : rs.map f = rs :=
  map_records_eq fun r hr => hf r (hdead r hr)

theorem rewrite (h : Tenancy (some slot) rs) {id : ObjectId} (f : HeapObject → HeapObject)
    (hrs : ∀ r ∈ rs, r.handle.arena = id.arena ∧ r.handle.index = id.index)
    (hgeneration : slot.generation = id.generation) :
    Tenancy (some { slot with object := slot.object.map f }) (rs.map (Record.rewrite id f)) := by
  cases h with
  | vacant hvacant hcount hnumbered hdead =>
      rw [map_of_dead (fun r hr => Record.rewrite_of_dead hr id f) hdead]
      exact .vacant (by simp [hvacant]) hcount hnumbered hdead
  | @occupied _ former r hsome hobject hr hnumbered hdead =>
      have hlast := hrs r (by simp)
      have hhandle : r.handle = id := by
        obtain ⟨⟨arena, index, generation⟩, content⟩ := r
        obtain ⟨arena', index', generation'⟩ := id
        simp only [ObjectId.mk.injEq]
        exact ⟨hlast.1, hlast.2, hr.symm.trans hgeneration⟩
      have hnumbered' := hnumbered.map (f := Record.rewrite id f) (by simp)
      rw [List.map_append] at hnumbered' ⊢
      refine .occupied (by simpa using hsome) ?_ (by simpa using hr) hnumbered' ?_
      · simp [Record.rewrite, hhandle, hobject]
      · rw [map_of_dead (fun r hr => Record.rewrite_of_dead hr id f) hdead]
        exact hdead

theorem vacate (h : Tenancy place rs) {gone : Nat → Bool}
    (hrs : ∀ r ∈ rs, gone r.handle.index = true) :
    Tenancy (place.map Slot.vacate) (rs.map (Record.expire gone)) := by
  have hdead : ∀ r ∈ rs.map (Record.expire gone), r.content = none := by
    intro r hr
    obtain ⟨old, hold, rfl⟩ := List.mem_map.1 hr
    simp [Record.expire, hrs old hold]
  cases h with
  | untouched => exact .untouched
  | @vacant slot _ hvacant hcount hnumbered _ =>
      have hslot : slot.vacate = slot := by simp [Slot.vacate, hvacant]
      rw [Option.map_some, hslot]
      exact .vacant hvacant (by simpa using hcount) (hnumbered.map (by simp)) hdead
  | @occupied slot former r hsome hobject hr hnumbered _ =>
      obtain ⟨o, ho⟩ := Option.isSome_iff_exists.1 hsome
      have hlast : r.handle.generation = UInt32.ofNat former.length :=
        hnumbered former.length r (by simp)
      refine .vacant slot.object_vacate ?_ (hnumbered.map (by simp)) hdead
      simp only [Slot.vacate, ho, hr, hlast, List.length_map, List.length_append,
        List.length_singleton]
      exact (UInt32.ofNat_add _ _).symm

theorem countP_live (h : Tenancy place rs) :
    rs.countP Record.isLive = if (place.bind Slot.object).isSome then 1 else 0 := by
  have hzero : ∀ former : List Record, (∀ r ∈ former, r.content = none) →
      former.countP Record.isLive = 0 := by
    intro former hdead
    rw [List.countP_eq_zero]
    intro r hr
    simp [Record.isLive, hdead r hr]
  cases h with
  | untouched => rfl
  | vacant hvacant _ _ hdead => simp [hvacant, hzero _ hdead]
  | occupied hsome hobject _ _ hdead =>
      have hlast := hobject ▸ hsome
      simp [List.countP_append, hzero _ hdead, Record.isLive, hsome, hlast]

end Tenancy

namespace Heap

/-- A heap that holds what its records say. -/
structure Traced (h : Heap) (records : List Record) : Prop where
  arena : ∀ r ∈ records, r.handle.arena = h.arena
  places : ∀ i : Nat, Tenancy h.places[i]? (tenants i records)
  nodup : h.free.Nodup
  free : ∀ i, i ∈ h.free ↔ ∃ slot, h.places[i]? = some slot ∧ slot.object = none
  live : h.live = records.countP Record.isLive

variable {h h' : Heap} {records : List Record} {id : ObjectId} {o : HeapObject}

theorem Traced.sound (ht : h.Traced records) : h.Sound :=
  ⟨fun i hi => (ht.free i).1 hi, ht.nodup⟩

theorem Traced.withUsed (ht : h.Traced records) (used : Nat) :
    { h with used := used }.Traced records :=
  ⟨ht.arena, ht.places, ht.nodup, ht.free, ht.live⟩

theorem Traced.empty (arena : Nat) (limits : Limits) : (Heap.empty arena limits).Traced [] := by
  refine ⟨by simp, fun i => ?_, List.nodup_nil, fun i => ?_, rfl⟩
  · simpa [Heap.empty, tenants] using Tenancy.untouched
  · simp [Heap.empty]

/-! ## New objects -/

theorem live_place (h : Heap) (o : HeapObject) (baseline : Nat) :
    (h.place o baseline).2.live = h.live + 1 := by
  unfold place
  split <;> rfl

theorem Sound.mem_free_place (hs : h.Sound) (o : HeapObject) (baseline i : Nat) :
    i ∈ (h.place o baseline).2.free ↔ i ∈ h.free ∧ i ≠ (h.place o baseline).1.index := by
  cases hfree : h.free with
  | nil =>
      rw [place_of_full hfree]
      simp [hfree]
  | cons index free =>
      obtain ⟨slot, hslot, -⟩ := hs.vacant index (hfree ▸ List.mem_cons_self)
      obtain ⟨hnotmem, -⟩ := List.nodup_cons.1 (hfree ▸ hs.nodup)
      rw [place_of_free hfree hslot]
      simp only [List.mem_cons]
      constructor
      · intro hi
        exact ⟨.inr hi, fun heq => hnotmem (heq ▸ hi)⟩
      · rintro ⟨rfl | hi, hne⟩
        · exact absurd rfl hne
        · exact hi

theorem Traced.place (ht : h.Traced records) (o : HeapObject) (baseline : Nat) :
    (h.place o baseline).2.Traced (records ++ [⟨(h.place o baseline).1, some o⟩]) := by
  obtain ⟨generation, hid, hplace, hplaces⟩ := getElem?_place ht.sound o baseline
  have harena := (h.alike_place o baseline).arena
  refine ⟨?_, ?_, (ht.sound.place o baseline).sound.nodup, ?_, ?_⟩
  · intro r hr
    rw [harena]
    rcases List.mem_append.1 hr with hr | hr
    · exact ht.arena r hr
    · rw [List.mem_singleton.1 hr, hid]
  · intro i
    have hi := ht.places i
    rw [hplaces, tenants_append_singleton]
    by_cases hhere : i = (h.place o baseline).1.index
    · rw [if_pos hhere, if_pos hhere.symm]
      refine hi.take ?_ rfl rfl ?_
      · rw [hhere, hid]
        exact hplace
      · rw [hid]
    · rw [if_neg hhere, if_neg (Ne.symm hhere)]
      exact hi
  · intro i
    rw [ht.sound.mem_free_place, hplaces, ht.free]
    by_cases hhere : i = (h.place o baseline).1.index
    · simp [hhere]
    · simp [hhere]
  · rw [live_place, ht.live, List.countP_append]
    rfl

/-! ## Changes to an object -/

theorem Traced.find?_of_live (ht : h.Traced records) {r : Record} (hr : r ∈ records)
    (hlive : r.content = some o) : h.find? r.handle = some o := by
  have hi := ht.places r.handle.index
  have hmem : r ∈ tenants r.handle.index records := mem_tenants.2 ⟨hr, rfl⟩
  generalize hrs : tenants r.handle.index records = rs at hi hmem
  generalize hplace : h.places[r.handle.index]? = place at hi
  cases hi with
  | untouched => exact nomatch hmem
  | vacant _ _ _ hdead => exact nomatch hlive.symm.trans (hdead r hmem)
  | occupied hsome hobject hgeneration _ hdead =>
      rcases List.mem_append.1 hmem with hmem | hmem
      · exact nomatch hlive.symm.trans (hdead r hmem)
      · obtain rfl := List.mem_singleton.1 hmem
        exact find?_eq_some.2 ⟨ht.arena r hr, _, hplace, hgeneration, hobject.trans hlive⟩

theorem Traced.map_rewrite_of_stale (ht : h.Traced records) (hid : h.find? id = none)
    (f : HeapObject → HeapObject) : records.map (Record.rewrite id f) = records := by
  refine map_records_eq fun r hr => ?_
  cases hcontent : r.content with
  | none => exact Record.rewrite_of_dead hcontent id f
  | some o =>
      refine Record.rewrite_of_ne ?_ f
      rintro rfl
      exact nomatch hid.symm.trans (ht.find?_of_live hr hcontent)

theorem tenants_rewrite_of_ne {i : Nat} (hi : id.index ≠ i) (f : HeapObject → HeapObject)
    (records : List Record) :
    (tenants i records).map (Record.rewrite id f) = tenants i records := by
  refine map_records_eq fun r hr => Record.rewrite_of_ne ?_ f
  rintro rfl
  exact hi (mem_tenants.1 hr).2

theorem Traced.update (ht : h.Traced records) (id : ObjectId) (f : HeapObject → HeapObject) :
    (h.update id f).Traced (records.map (Record.rewrite id f)) := by
  cases hid : h.find? id with
  | none =>
      rw [ht.map_rewrite_of_stale hid, Heap.update, if_neg (by simp [isLive, hid])]
      exact ⟨ht.arena, ht.places, ht.nodup, ht.free, ht.live⟩
  | some o =>
      obtain ⟨harena, slot, hslot, hgeneration, hobject⟩ := find?_eq_some.1 hid
      rw [update_of_find? hid]
      refine ⟨?_, ?_, ht.nodup, ?_, ?_⟩
      · intro r hr
        obtain ⟨old, hold, rfl⟩ := List.mem_map.1 hr
        simpa using ht.arena old hold
      · intro i
        have hi := ht.places i
        rw [tenants_map (by simp), Array.getElem?_modify]
        by_cases hhere : id.index = i
        · subst hhere
          rw [if_pos rfl, hslot, Option.map_some]
          rw [hslot] at hi
          refine hi.rewrite f ?_ hgeneration
          intro r hr
          obtain ⟨hmem, hindex⟩ := mem_tenants.1 hr
          exact ⟨(ht.arena r hmem).trans harena.symm, hindex⟩
        · rw [if_neg hhere, tenants_rewrite_of_ne hhere]
          exact hi
      · intro i
        rw [ht.free, Array.getElem?_modify]
        by_cases hhere : id.index = i
        · subst hhere
          simp [hslot, hobject]
        · simp [hhere]
      · rw [ht.live, List.countP_map]
        simp [Function.comp_def]

/-! ## Collections -/

theorem countP_expire (records : List Record) (i : Nat) :
    (records.map (Record.expire (· == i))).countP Record.isLive +
      (tenants i records).countP Record.isLive = records.countP Record.isLive := by
  unfold tenants
  induction records with
  | nil => rfl
  | cons r rest ih =>
      by_cases hi : r.handle.index = i
      · have hdead : (r.expire (· == i)).isLive = false := by
          simp [Record.expire, hi, Record.isLive]
        simp only [List.map_cons, List.filter_cons, hi, decide_true, if_true, List.countP_cons,
          hdead]
        simp only [Bool.false_eq_true, if_false]
        omega
      · have hsame : r.expire (· == i) = r := by simp [Record.expire, hi]
        simp only [List.map_cons, List.filter_cons, hi, decide_false, Bool.false_eq_true, if_false,
          List.countP_cons, hsame]
        omega

/-- The object at a place, whatever its handle. -/
def occupant (h : Heap) (i : Nat) : Option HeapObject :=
  h.places[i]?.bind Slot.object

theorem occupant_freePlace (h : Heap) (i : Nat) :
    (h.occupant i = none ∧ h.freePlace i = h) ∨
      (∃ o, h.occupant i = some o) ∧ (h.freePlace i).free = i :: h.free ∧
        (h.freePlace i).live = h.live - 1 := by
  unfold Heap.freePlace occupant
  split
  · next generation baseline o hslot => exact .inr ⟨⟨o, by rw [hslot]; rfl⟩, rfl, rfl⟩
  · next hnone =>
    refine .inl ⟨?_, rfl⟩
    cases hslot : h.places[i]? with
    | none => rfl
    | some slot =>
      obtain ⟨generation, baseline, object⟩ := slot
      cases object with
      | none => rfl
      | some o => exact absurd hslot (hnone generation baseline o)

theorem Traced.freePlace (ht : h.Traced records) (i : Nat) :
    (h.freePlace i).Traced (records.map (Record.expire (· == i))) := by
  have hcount := countP_expire records i
  rw [(ht.places i).countP_live] at hcount
  have hoccupant := h.occupant_freePlace i
  refine ⟨?_, ?_, (ht.sound.freePlace i).nodup, ?_, ?_⟩
  · intro r hr
    obtain ⟨old, hold, rfl⟩ := List.mem_map.1 hr
    simpa [(h.alike_freePlace i).arena] using ht.arena old hold
  · intro j
    rw [tenants_map (by simp), getElem?_freePlace]
    have hj := ht.places j
    by_cases hhere : j = i
    · subst hhere
      simp only [if_true]
      exact hj.vacate fun r hr => by simp [(mem_tenants.1 hr).2]
    · simp only [hhere, if_false, Option.map_id']
      have hsame : (tenants j records).map (Record.expire (· == i)) = tenants j records := by
        refine map_records_eq fun r hr => ?_
        simp [Record.expire, (mem_tenants.1 hr).2, hhere]
      rw [hsame]
      exact hj
  · intro j
    rcases hoccupant with ⟨-, hsame⟩ | ⟨⟨o, ho⟩, hfree, -⟩
    · rw [hsame]
      exact ht.free j
    · rw [hfree, List.mem_cons, ht.free, getElem?_freePlace]
      by_cases hhere : j = i
      · subst hhere
        obtain ⟨slot, hslot, -⟩ := Option.bind_eq_some_iff.1 ho
        simp [hslot, slot.object_vacate]
      · simp [hhere]
  · rcases hoccupant with ⟨hnone, hsame⟩ | ⟨⟨o, ho⟩, -, hlive⟩
    · unfold occupant at hnone
      simp only [hnone, Option.isSome_none, Bool.false_eq_true, if_false] at hcount
      rw [hsame, ht.live]
      omega
    · unfold occupant at ho
      simp only [ho, Option.isSome_some, if_true] at hcount
      rw [hlive, ht.live]
      omega

theorem Traced.sweep (ht : h.Traced records) (m : Marks) (indexes : List Nat) :
    (h.sweep m indexes).Traced
      (records.map (Record.expire fun i => indexes.contains i && m.objects[i]? != some true)) := by
  induction indexes generalizing h records with
  | nil =>
      have hnone : (Record.expire fun i => [].contains i && m.objects[i]? != some true) = id := by
        funext r
        simp [Record.expire]
      rw [hnone, List.map_id]
      exact ht
  | cons index rest ih =>
      rw [Heap.sweep]
      split
      · next hmarked =>
        have hgone : (fun i => (index :: rest).contains i && m.objects[i]? != some true) =
            fun i => rest.contains i && m.objects[i]? != some true := by
          funext i
          by_cases hi : i = index
          · simp [hi, hmarked]
          · simp [hi]
        rw [hgone]
        exact ih ht
      · next hunmarked =>
        have hrest := ih (ht.freePlace index)
        rw [List.map_map] at hrest
        have hgone : (fun i => (index :: rest).contains i && m.objects[i]? != some true) =
            fun i => i == index || (rest.contains i && m.objects[i]? != some true) := by
          funext i
          by_cases hi : i = index
          · simp [hi, hunmarked]
          · simp [hi]
        rw [hgone]
        simpa only [Function.comp_def, Record.expire_expire] using hrest

/-- What a collection takes away is what was at the places that it leaves empty. -/
theorem Traced.collect (ht : h.Traced records) (s : Scopes) (roots : List Value)
    (scopes : List ScopeId) :
    (h.collect s roots scopes).2.Traced (records.map (Record.expire fun i =>
      (h.occupant i).isSome && ((h.collect s roots scopes).2.occupant i).isNone)) := by
  have hcollect : ∃ m, (h.collect s roots scopes).2 =
      { h.sweep m (List.range h.places.size) with allocated := 0 } := ⟨_, rfl⟩
  obtain ⟨m, hcollect⟩ := hcollect
  have hswept := ht.sweep m (List.range h.places.size)
  have hsame : records.map (Record.expire fun i =>
      (h.occupant i).isSome && ((h.collect s roots scopes).2.occupant i).isNone) =
      records.map (Record.expire fun i =>
        (List.range h.places.size).contains i && m.objects[i]? != some true) := by
    refine List.map_congr_left fun r hr => ?_
    cases hcontent : r.content with
    | none => rw [Record.expire_of_dead hcontent, Record.expire_of_dead hcontent]
    | some o =>
        obtain ⟨-, slot, hslot, -, hobject⟩ := find?_eq_some.1 (ht.find?_of_live hr hcontent)
        have hlt := (Array.getElem?_eq_some_iff.1 hslot).1
        have hbefore : h.occupant r.handle.index = some o := by simp [occupant, hslot, hobject]
        have hafter : ((h.collect s roots scopes).2.occupant r.handle.index).isNone =
            (m.objects[r.handle.index]? != some true) := by
          rw [hcollect]
          simp only [occupant, getElem?_sweep, hslot]
          by_cases hmarked : m.objects[r.handle.index]? = some true
          · simp [hmarked, hobject]
          · simp [hmarked, hlt, slot.object_vacate]
        simp only [Record.expire, hbefore, hafter]
        simp [hlt]
  rw [hsame, hcollect]
  exact ⟨hswept.arena, hswept.places, hswept.nodup, hswept.free, hswept.live⟩

/-! ## What the records tell -/

/-- How often the place has been freed. -/
def frees (records : List Record) (i : Nat) : Nat :=
  (tenants i records).countP fun r => !r.isLive

theorem Traced.occupant_place (ht : h.Traced records) (o : HeapObject) (baseline : Nat) :
    h.occupant (h.place o baseline).1.index = none := by
  obtain ⟨generation, -, hplace, -⟩ := getElem?_place ht.sound o baseline
  rcases hplace with ⟨hnone, -⟩ | ⟨slot, hslot, hvacant, -⟩
  · simp [occupant, hnone]
  · simp [occupant, hslot, hvacant]

end Heap

theorem uint32_ofNat_injective {j k : Nat} (hj : j < 2 ^ 32) (hk : k < 2 ^ 32)
    (h : UInt32.ofNat j = UInt32.ofNat k) : j = k := by
  have hnat := congrArg UInt32.toNat h
  rwa [UInt32.toNat_ofNat_of_lt' hj, UInt32.toNat_ofNat_of_lt' hk] at hnat

theorem Tenancy.numbered {place : Option Slot} {rs : List Record} (h : Tenancy place rs) :
    Numbered rs := by
  cases h with
  | untouched => exact fun j r hr => nomatch hr
  | vacant _ _ hnumbered => exact hnumbered
  | occupied _ _ _ hnumbered => exact hnumbered

theorem length_le_countP_dead {rs : List Record} (hdead : ∀ r ∈ rs, r.content = none) :
    rs.length ≤ rs.countP fun r => !r.isLive := by
  refine Nat.le_of_eq (Eq.symm (List.countP_eq_length.2 fun r hr => ?_))
  simp [Record.isLive, hdead r hr]

theorem Tenancy.length_le {place : Option Slot} {rs : List Record} (h : Tenancy place rs) :
    rs.length ≤ (rs.countP fun r => !r.isLive) + 1 := by
  cases h with
  | untouched => simp
  | vacant _ _ _ hdead => exact Nat.le_succ_of_le (length_le_countP_dead hdead)
  | occupied _ _ _ _ hdead =>
      have := length_le_countP_dead hdead
      simp only [List.length_append, List.length_singleton, List.countP_append]
      omega

/-- As long as the count of generations has not come round, no handle is given out twice. -/
theorem Numbered.nodup {rs : List Record} (h : Numbered rs) (hlength : rs.length ≤ 2 ^ 32) :
    (rs.map Record.handle).Nodup := by
  rw [List.nodup_iff_getElem?_ne_getElem?]
  intro j k hjk hk heq
  rw [List.length_map] at hk
  have hj : j < rs.length := Nat.lt_trans hjk hk
  rw [List.getElem?_map, List.getElem?_map, List.getElem?_eq_getElem hj,
    List.getElem?_eq_getElem hk] at heq
  have hhandle : rs[j].handle = rs[k].handle := by simpa using heq
  have hgeneration := congrArg ObjectId.generation hhandle
  rw [h j _ (List.getElem?_eq_getElem hj), h k _ (List.getElem?_eq_getElem hk)] at hgeneration
  have := uint32_ofNat_injective (by omega) (by omega) hgeneration
  omega

namespace Heap

variable {h : Heap} {records : List Record}

theorem Traced.length_tenants_le (ht : h.Traced records) {i : Nat}
    (hfrees : frees records i < 2 ^ 32) : (tenants i records).length ≤ 2 ^ 32 := by
  have := (ht.places i).length_le
  unfold frees at hfrees
  omega

theorem Traced.nodup_handles (ht : h.Traced records) (hfrees : ∀ i, frees records i < 2 ^ 32) :
    (records.map Record.handle).Nodup := by
  rw [List.nodup_iff_count_le_one]
  intro id
  have hcount : (records.map Record.handle).count id =
      ((tenants id.index records).map Record.handle).count id := by
    simp only [List.count, List.countP_map, tenants, List.countP_filter]
    refine List.countP_congr fun r _ => ?_
    simp only [Function.comp_apply, beq_iff_eq, Bool.and_eq_true, decide_eq_true_eq]
    constructor
    · rintro rfl
      exact ⟨rfl, rfl⟩
    · exact fun hr => hr.1
  rw [hcount]
  exact List.nodup_iff_count_le_one.1
    ((ht.places id.index).numbered.nodup (ht.length_tenants_le (hfrees id.index))) id

/-- A handle leads to its own object, and nowhere once that one was collected. -/
theorem Traced.find?_eq (ht : h.Traced records) (hfrees : ∀ i, frees records i < 2 ^ 32)
    {r : Record} (hr : r ∈ records) : h.find? r.handle = r.content := by
  cases hcontent : r.content with
  | some o => exact ht.find?_of_live hr hcontent
  | none =>
      refine Option.eq_none_iff_forall_ne_some.2 fun o hfind => ?_
      obtain ⟨-, slot, hslot, hgeneration, hobject⟩ := find?_eq_some.1 hfind
      have hi := ht.places r.handle.index
      have hlength := ht.length_tenants_le (hfrees r.handle.index)
      have hmem : r ∈ tenants r.handle.index records := mem_tenants.2 ⟨hr, rfl⟩
      rw [hslot] at hi
      generalize tenants r.handle.index records = rs at hi hlength hmem
      cases hi with
      | vacant hvacant => exact nomatch hvacant.symm.trans hobject
      | @occupied _ former last _ hlast hlastGeneration hnumbered hdead =>
          rcases List.mem_append.1 hmem with hmem | hmem
          · obtain ⟨j, hj, rfl⟩ := List.getElem_of_mem hmem
            have hformer := hnumbered j former[j] (by simp [List.getElem?_append_left hj])
            have hlatest := hnumbered former.length last (by simp)
            rw [List.length_append, List.length_singleton] at hlength
            have := uint32_ofNat_injective (by omega) (by omega)
              (hformer.symm.trans (hgeneration.symm.trans (hlastGeneration.trans hlatest)))
            omega
          · obtain rfl := List.mem_singleton.1 hmem
            exact nomatch hcontent.symm.trans (hlast.symm.trans hobject)

end Heap

end ScriptHost

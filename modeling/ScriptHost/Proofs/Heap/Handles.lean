import Mathlib.Algebra.Group.Nat.Defs
import Mathlib.Data.List.Nodup
import ScriptHost.Heap.Basic

/-!
What the handles of a heap resolve to, and how making and changing objects affects it.
-/

namespace ScriptHost.Heap

variable {h h' : Heap} {id other : ObjectId} {o o' : HeapObject} {slot : Slot}

theorem find?_eq_some : h.find? id = some o ↔ id.arena = h.arena ∧
    ∃ slot, h.places[id.index]? = some slot ∧ slot.generation = id.generation ∧
      slot.object = some o := by
  unfold find?
  constructor
  · intro hfind
    split at hfind
    · next harena =>
      split at hfind
      · next slot hslot =>
        split at hfind
        · next hgeneration => exact ⟨harena, slot, hslot, hgeneration, hfind⟩
        · exact nomatch hfind
      · exact nomatch hfind
    · exact nomatch hfind
  · rintro ⟨harena, slot, hslot, hgeneration, hobject⟩
    rw [if_pos harena, hslot]
    dsimp only
    rw [if_pos hgeneration, hobject]

theorem find?_congr (harena : h'.arena = h.arena)
    (hplace : h'.places[id.index]? = h.places[id.index]?) : h'.find? id = h.find? id := by
  unfold find?
  rw [harena, hplace]

theorem isLive_iff : h.isLive id = true ↔ ∃ o, h.find? id = some o :=
  Option.isSome_iff_exists

theorem object_eq (hid : h.find? id = some o) : h.object id = o := by
  rw [object, hid, Option.getD_some]

/-- At any time a place has one handle. -/
theorem eq_of_slot (hid : id.arena = h.arena) (hother : other.arena = h.arena)
    (hindex : other.index = id.index) (hslot : h.places[id.index]? = some slot)
    (hgeneration : slot.generation = id.generation)
    (hgeneration' : slot.generation = other.generation) : other = id := by
  obtain ⟨arena, index, generation⟩ := id
  obtain ⟨arena', index', generation'⟩ := other
  simp only [ObjectId.mk.injEq]
  exact ⟨hother.trans hid.symm, hindex, hgeneration'.symm.trans hgeneration⟩

theorem find?_eq_none_of_ne (id : ObjectId) (hid : id.arena = h.arena)
    (hslot : h.places[id.index]? = some slot) (hgeneration : slot.generation = id.generation)
    (hne : other ≠ id) (hindex : other.index = id.index) : h.find? other = none := by
  refine Option.eq_none_iff_forall_ne_some.2 fun o hfind => ?_
  obtain ⟨hother, slot', hslot', hgeneration', -⟩ := find?_eq_some.1 hfind
  rw [hindex, hslot] at hslot'
  obtain rfl := Option.some.inj hslot'
  exact hne (eq_of_slot hid hother hindex hslot hgeneration hgeneration')

theorem find?_eq_none_of_vacant (hslot : h.places[id.index]? = some slot)
    (hvacant : slot.object = none) : h.find? id = none := by
  refine Option.eq_none_iff_forall_ne_some.2 fun o hfind => ?_
  obtain ⟨-, slot', hslot', -, hobject⟩ := find?_eq_some.1 hfind
  rw [hslot] at hslot'
  obtain rfl := Option.some.inj hslot'
  rw [hvacant] at hobject
  exact nomatch hobject

theorem find?_eq_none_of_size_le (hid : h.places.size ≤ id.index) : h.find? id = none := by
  refine Option.eq_none_iff_forall_ne_some.2 fun o hfind => ?_
  obtain ⟨-, slot, hslot, -⟩ := find?_eq_some.1 hfind
  rw [Array.getElem?_eq_none hid] at hslot
  exact nomatch hslot

/-! ## Changes to an object -/

theorem update_of_find? (hid : h.find? id = some o) (f : HeapObject → HeapObject) :
    h.update id f =
      { h with places := h.places.modify id.index fun slot =>
          { slot with object := slot.object.map f } } := by
  rw [update, if_pos (isLive_iff.2 ⟨o, hid⟩)]

theorem find?_update (hid : h.find? id = some o) (f : HeapObject → HeapObject) :
    (h.update id f).find? id = some (f o) := by
  obtain ⟨harena, slot, hslot, hgeneration, hobject⟩ := find?_eq_some.1 hid
  rw [update_of_find? hid]
  refine find?_eq_some.2 ⟨harena, { slot with object := slot.object.map f }, ?_, hgeneration, ?_⟩
  · rw [Array.getElem?_modify, if_pos rfl, hslot, Option.map_some]
  · rw [hobject, Option.map_some]

theorem find?_update_of_ne (hid : h.find? id = some o) (f : HeapObject → HeapObject)
    (hne : other ≠ id) : (h.update id f).find? other = h.find? other := by
  obtain ⟨harena, slot, hslot, hgeneration, -⟩ := find?_eq_some.1 hid
  rw [update_of_find? hid]
  by_cases hindex : other.index = id.index
  · rw [find?_eq_none_of_ne id harena hslot hgeneration hne hindex]
    have hslot' : (h.places.modify id.index fun slot =>
        { slot with object := slot.object.map f })[id.index]? =
        some { slot with object := slot.object.map f } := by
      rw [Array.getElem?_modify, if_pos rfl, hslot, Option.map_some]
    exact find?_eq_none_of_ne id harena hslot' hgeneration hne hindex
  · refine find?_congr rfl ?_
    rw [Array.getElem?_modify, if_neg (Ne.symm hindex)]

/-- What only a write through a stale handle can change, if anything can. -/
structure Alike (h h' : Heap) : Prop where
  arena : h'.arena = h.arena
  maxSlots : h'.maxSlots = h.maxSlots
  maxString : h'.maxString = h.maxString
  tombstone : h'.tombstone = h.tombstone

theorem Alike.refl (h : Heap) : h.Alike h :=
  ⟨rfl, rfl, rfl, rfl⟩

theorem Alike.trans {h'' : Heap} (hh : h.Alike h') (hh' : h'.Alike h'') : h.Alike h'' :=
  ⟨hh'.arena.trans hh.arena, hh'.maxSlots.trans hh.maxSlots, hh'.maxString.trans hh.maxString,
    hh'.tombstone.trans hh.tombstone⟩

/-! ## New objects -/

/-- The free places are vacant, and no place is free twice. -/
structure Sound (h : Heap) : Prop where
  vacant : ∀ index ∈ h.free, ∃ slot, h.places[index]? = some slot ∧ slot.object = none
  nodup : h.free.Nodup

theorem Sound.empty (arena : Nat) (limits : Limits) : (Heap.empty arena limits).Sound :=
  ⟨fun _ hindex => absurd hindex List.not_mem_nil, List.nodup_nil⟩

theorem Sound.update (hs : h.Sound) (hid : h.find? id = some o) (f : HeapObject → HeapObject) :
    (h.update id f).Sound := by
  rw [update_of_find? hid]
  refine ⟨fun index hindex => ?_, hs.nodup⟩
  obtain ⟨slot, hslot, hvacant⟩ := hs.vacant index hindex
  by_cases hhere : id.index = index
  · refine ⟨{ slot with object := slot.object.map f }, ?_, ?_⟩
    · rw [Array.getElem?_modify, if_pos hhere, hslot, Option.map_some]
    · rw [hvacant, Option.map_none]
  · refine ⟨slot, ?_, hvacant⟩
    rw [Array.getElem?_modify, if_neg hhere, hslot]

/-- A new object is behind a handle that led nowhere, and no other handle leads elsewhere. -/
structure Placed (h : Heap) (o : HeapObject) (id : ObjectId) (h' : Heap) : Prop where
  sound : h'.Sound
  stale : h.find? id = none
  here : h'.find? id = some o
  elsewhere : ∀ other, other ≠ id → h'.find? other = h.find? other

theorem place_of_free {index : Nat} {free : List Nat} (hfree : h.free = index :: free)
    (hslot : h.places[index]? = some slot) (o : HeapObject) (baseline : Nat) :
    h.place o baseline = (⟨h.arena, index, slot.generation⟩,
      { h with
        places := h.places.setIfInBounds index ⟨slot.generation, baseline, some o⟩
        free := free
        live := h.live + 1
        allocated := h.allocated + 1 }) := by
  rw [place, hfree]
  simp only [hslot, Option.map_some, Option.getD_some]

theorem place_of_full (hfree : h.free = []) (o : HeapObject) (baseline : Nat) :
    h.place o baseline = (⟨h.arena, h.places.size, 0⟩,
      { h with
        places := h.places.push ⟨0, baseline, some o⟩
        live := h.live + 1
        allocated := h.allocated + 1 }) := by
  rw [place, hfree]

theorem alike_place (h : Heap) (o : HeapObject) (baseline : Nat) :
    h.Alike (h.place o baseline).2 := by
  unfold place
  split <;> exact ⟨rfl, rfl, rfl, rfl⟩

theorem Sound.place (hs : h.Sound) (o : HeapObject) (baseline : Nat) :
    h.Placed o (h.place o baseline).1 (h.place o baseline).2 := by
  cases hfree : h.free with
  | nil =>
    rw [place_of_full hfree]
    have hnew : (h.places.push ⟨0, baseline, some o⟩)[h.places.size]? =
        some ⟨0, baseline, some o⟩ := Array.getElem?_push_size
    refine ⟨⟨fun index hindex => ?_, hs.nodup⟩, find?_eq_none_of_size_le (Nat.le_refl _),
      find?_eq_some.2 ⟨rfl, _, hnew, rfl, rfl⟩, fun other hne => ?_⟩
    · rw [show _ = h.free from rfl, hfree] at hindex
      exact absurd hindex List.not_mem_nil
    · by_cases hindex : other.index = h.places.size
      · rw [find?_eq_none_of_size_le (Nat.le_of_eq hindex.symm)]
        exact find?_eq_none_of_ne ⟨h.arena, h.places.size, 0⟩ rfl hnew rfl hne hindex
      · refine find?_congr rfl ?_
        rw [Array.getElem?_push, if_neg hindex]
  | cons index free =>
    obtain ⟨slot, hslot, hvacant⟩ := hs.vacant index (hfree ▸ List.mem_cons_self)
    obtain ⟨hnotmem, hnodup⟩ := List.nodup_cons.1 (hfree ▸ hs.nodup)
    rw [place_of_free hfree hslot]
    have hlt : index < h.places.size := (Array.getElem?_eq_some_iff.1 hslot).1
    have hnew : (h.places.setIfInBounds index ⟨slot.generation, baseline, some o⟩)[index]? =
        some ⟨slot.generation, baseline, some o⟩ := Array.getElem?_setIfInBounds_self_of_lt hlt
    refine ⟨⟨fun other hother => ?_, hnodup⟩, find?_eq_none_of_vacant hslot hvacant,
      find?_eq_some.2 ⟨rfl, _, hnew, rfl, rfl⟩, fun other hne => ?_⟩
    · have hne : index ≠ other := fun heq => hnotmem (heq ▸ hother)
      obtain ⟨slot', hslot', hvacant'⟩ := hs.vacant other (hfree ▸ List.mem_cons_of_mem _ hother)
      exact ⟨slot', (Array.getElem?_setIfInBounds_ne hne).trans hslot', hvacant'⟩
    · by_cases hindex : other.index = index
      · have hold : h.find? other = none := find?_eq_none_of_vacant (hindex ▸ hslot) hvacant
        rw [hold]
        exact find?_eq_none_of_ne ⟨h.arena, index, slot.generation⟩ rfl hnew rfl hne hindex
      · exact find?_congr rfl (Array.getElem?_setIfInBounds_ne (Ne.symm hindex))

end ScriptHost.Heap

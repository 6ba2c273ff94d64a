import ScriptHost.Proofs.Heap.Sweeping

/-!
Which handles a heap has given out, and how often its places have been freed.
-/

namespace ScriptHost

def Slot.Ages (slot slot' : Slot) : Prop :=
  slot.generation < slot'.generation ∨
    slot.generation = slot'.generation ∧ (slot.object.isSome → slot'.object.isSome)

theorem Slot.Ages.refl (slot : Slot) : slot.Ages slot :=
  .inr ⟨rfl, id⟩

theorem Slot.toNat_generation_vacate (slot : Slot) :
    slot.vacate.generation.toNat ≤ slot.generation.toNat + 1 := by
  unfold vacate
  split
  · exact UInt32.toNat_add slot.generation 1 ▸ Nat.mod_le _ _
  · exact Nat.le_succ _

theorem Slot.ages_vacate (slot : Slot) (hgeneration : slot.generation.toNat + 1 < 2 ^ 32) :
    slot.Ages slot.vacate := by
  unfold vacate
  split
  · refine .inl (UInt32.lt_iff_toNat_lt.2 ?_)
    rw [UInt32.toNat_add, UInt32.toNat_one, Nat.mod_eq_of_lt hgeneration]
    exact Nat.lt_succ_self _
  · exact .refl slot

namespace Heap

variable {h h' : Heap} {id : ObjectId} {n : Nat}

/-- The heap has given out the handle, as far as the generations of its places tell. -/
def Issued (h : Heap) (id : ObjectId) : Prop :=
  id.arena = h.arena ∧ ∃ slot, h.places[id.index]? = some slot ∧
    (id.generation < slot.generation ∨ id.generation = slot.generation ∧ slot.object.isSome)

/-- No place has been freed more often than that. -/
def Aged (h : Heap) (n : Nat) : Prop :=
  ∀ (i : Nat) (slot : Slot), h.places[i]? = some slot → slot.generation.toNat ≤ n

/-- A heap, now and later. -/
structure Ages (h h' : Heap) : Prop where
  arena : h'.arena = h.arena
  places : ∀ (i : Nat) (slot : Slot), h.places[i]? = some slot →
    ∃ slot', h'.places[i]? = some slot' ∧ slot.Ages slot'

theorem Issued.later (hid : h.Issued id) (ha : h.Ages h') : h'.Issued id := by
  obtain ⟨harena, slot, hslot, hissued⟩ := hid
  obtain ⟨slot', hslot', hages⟩ := ha.places id.index slot hslot
  refine ⟨harena.trans ha.arena.symm, slot', hslot', ?_⟩
  rcases hissued with hlt | ⟨heq, hsome⟩
  · rcases hages with hlt' | ⟨heq', -⟩
    · exact .inl (UInt32.lt_trans hlt hlt')
    · exact .inl (heq' ▸ hlt)
  · rcases hages with hlt' | ⟨heq', hstill⟩
    · exact .inl (heq ▸ hlt')
    · exact .inr ⟨heq.trans heq', hstill hsome⟩

/-! ## Changes to an object -/

theorem getElem?_update (h : Heap) (id : ObjectId) (f : HeapObject → HeapObject) (i : Nat) :
    (h.update id f).places[i]? = h.places[i]? ∨
      (h.update id f).places[i]? =
        h.places[i]?.map fun slot => { slot with object := slot.object.map f } := by
  unfold update
  split
  · dsimp only
    rw [Array.getElem?_modify]
    split
    · exact .inr rfl
    · exact .inl rfl
  · exact .inl rfl

theorem ages_update (h : Heap) (id : ObjectId) (f : HeapObject → HeapObject) :
    h.Ages (h.update id f) := by
  refine ⟨by unfold update; split <;> rfl, fun i slot hslot => ?_⟩
  rcases h.getElem?_update id f i with hsame | hchanged
  · exact ⟨slot, hsame.trans hslot, .refl slot⟩
  · rw [hslot] at hchanged
    exact ⟨_, hchanged, .inr ⟨rfl, fun hsome => (Option.isSome_map ..).trans hsome⟩⟩

theorem Aged.update (ha : h.Aged n) (id : ObjectId) (f : HeapObject → HeapObject) :
    (h.update id f).Aged n := by
  intro i slot hslot
  rcases h.getElem?_update id f i with hsame | hchanged
  · exact ha i slot (hsame.symm.trans hslot)
  · obtain ⟨old, hold, rfl⟩ := Option.map_eq_some_iff.1 (hchanged.symm.trans hslot)
    exact ha i old hold

/-! ## New objects -/

theorem getElem?_place (hs : h.Sound) (o : HeapObject) (baseline : Nat) :
    ∃ generation, (h.place o baseline).1 = ⟨h.arena, (h.place o baseline).1.index, generation⟩ ∧
      (h.places[(h.place o baseline).1.index]? = none ∧ generation = 0 ∨
        ∃ slot, h.places[(h.place o baseline).1.index]? = some slot ∧ slot.object = none ∧
          slot.generation = generation) ∧
      ∀ i : Nat, (h.place o baseline).2.places[i]? =
        if i = (h.place o baseline).1.index then some ⟨generation, baseline, some o⟩
        else h.places[i]? := by
  cases hfree : h.free with
  | nil =>
    rw [place_of_full hfree]
    refine ⟨0, rfl, .inl ⟨Array.getElem?_eq_none (Nat.le_refl _), rfl⟩, fun i => ?_⟩
    exact Array.getElem?_push
  | cons index free =>
    obtain ⟨slot, hslot, hvacant⟩ := hs.vacant index (hfree ▸ List.mem_cons_self)
    rw [place_of_free hfree hslot]
    refine ⟨slot.generation, rfl, .inr ⟨slot, hslot, hvacant, rfl⟩, fun i => ?_⟩
    have hlt : index < h.places.size := (Array.getElem?_eq_some_iff.1 hslot).1
    by_cases hi : i = index
    · subst hi
      rw [if_pos rfl]
      exact Array.getElem?_setIfInBounds_self_of_lt hlt
    · rw [if_neg hi]
      exact Array.getElem?_setIfInBounds_ne (Ne.symm hi)

theorem Sound.not_issued_place (hs : h.Sound) (o : HeapObject) (baseline : Nat) :
    ¬ h.Issued (h.place o baseline).1 := by
  obtain ⟨generation, hid, hplace, -⟩ := getElem?_place hs o baseline
  rintro ⟨-, slot, hslot, hissued⟩
  rcases hplace with ⟨hnone, -⟩ | ⟨slot', hslot', hvacant, hgeneration⟩
  · exact nomatch hnone.symm.trans hslot
  · obtain rfl := Option.some.inj (hslot'.symm.trans hslot)
    rw [hid, hgeneration, hvacant] at hissued
    rcases hissued with hlt | ⟨-, hsome⟩
    · exact absurd hlt (UInt32.lt_irrefl _)
    · exact nomatch hsome

theorem Sound.issued_place (hs : h.Sound) (o : HeapObject) (baseline : Nat) :
    (h.place o baseline).2.Issued (h.place o baseline).1 := by
  obtain ⟨harena, slot, hslot, hgeneration, hobject⟩ := find?_eq_some.1 (hs.place o baseline).here
  exact ⟨harena, slot, hslot, .inr ⟨hgeneration.symm, hobject ▸ rfl⟩⟩

theorem Sound.ages_place (hs : h.Sound) (o : HeapObject) (baseline : Nat) :
    h.Ages (h.place o baseline).2 := by
  obtain ⟨generation, -, hplace, hplaces⟩ := getElem?_place hs o baseline
  refine ⟨(h.alike_place o baseline).arena, fun i slot hslot => ?_⟩
  rw [hplaces]
  split
  · next hi =>
    subst hi
    rcases hplace with ⟨hnone, -⟩ | ⟨slot', hslot', -, hgeneration⟩
    · exact nomatch hnone.symm.trans hslot
    · obtain rfl := Option.some.inj (hslot'.symm.trans hslot)
      exact ⟨_, rfl, .inr ⟨hgeneration, fun _ => rfl⟩⟩
  · exact ⟨slot, hslot, .refl slot⟩

theorem Aged.place (ha : h.Aged n) (hs : h.Sound) (o : HeapObject) (baseline : Nat) :
    (h.place o baseline).2.Aged n := by
  obtain ⟨generation, -, hplace, hplaces⟩ := getElem?_place hs o baseline
  intro i slot hslot
  rw [hplaces] at hslot
  split at hslot
  · obtain rfl := Option.some.inj hslot
    rcases hplace with ⟨-, rfl⟩ | ⟨slot', hslot', -, rfl⟩
    · exact Nat.zero_le n
    · exact ha _ slot' hslot'
  · exact ha i slot hslot

/-! ## Collections -/

section Tidied

variable (s : Scopes) (roots : List Value) (scopes : List ScopeId)

theorem getElem?_tidied (h : Heap) (i : Nat) :
    (h.tidied s roots scopes).places[i]? = h.places[i]? ∨
      (h.tidied s roots scopes).places[i]? = h.places[i]?.map Slot.vacate := by
  rcases h.tidied_kept s roots scopes with hsame | ⟨m, hk, -⟩
  · rw [hsame]
    exact .inl rfl
  · rw [hk.places]
    split
    · exact .inl Option.map_id'
    · exact .inr rfl

theorem Aged.tidied (ha : h.Aged n) : (h.tidied s roots scopes).Aged (n + 1) := by
  intro i slot hslot
  rcases h.getElem?_tidied s roots scopes i with hsame | hvacated
  · exact Nat.le_succ_of_le (ha i slot (hsame.symm.trans hslot))
  · obtain ⟨old, hold, rfl⟩ := Option.map_eq_some_iff.1 (hvacated.symm.trans hslot)
    exact Nat.le_trans old.toNat_generation_vacate (Nat.succ_le_succ (ha i old hold))

theorem Aged.ages_tidied (ha : h.Aged n) (hn : n + 1 < 2 ^ 32) :
    h.Ages (h.tidied s roots scopes) := by
  refine ⟨(h.alike_tidied s roots scopes).arena, fun i slot hslot => ?_⟩
  rcases h.getElem?_tidied s roots scopes i with hsame | hvacated
  · exact ⟨slot, hsame.trans hslot, .refl slot⟩
  · rw [hslot] at hvacated
    have hgeneration := ha i slot hslot
    exact ⟨_, hvacated, slot.ages_vacate (by omega)⟩

end Tidied

end Heap

end ScriptHost

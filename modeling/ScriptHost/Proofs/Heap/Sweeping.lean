import ScriptHost.Proofs.Heap.Marking

/-!
A collection frees what is not marked and leaves everything else as it was.
-/

namespace ScriptHost

def Slot.vacate (slot : Slot) : Slot :=
  match slot.object with
  | some _ => ⟨slot.generation + 1, slot.baseline, none⟩
  | none => slot

theorem Slot.object_vacate (slot : Slot) : slot.vacate.object = none := by
  unfold vacate
  split
  · rfl
  · assumption

theorem Slot.vacate_vacate (slot : Slot) : slot.vacate.vacate = slot.vacate := by
  have hvacant := slot.object_vacate
  generalize slot.vacate = other at hvacant ⊢
  rw [vacate, hvacant]

namespace Heap

variable {h h' : Heap} {m : Marks} {id : ObjectId}

theorem getElem?_freePlace (h : Heap) (index i : Nat) :
    (h.freePlace index).places[i]? =
      h.places[i]?.map fun slot => if i = index then slot.vacate else slot := by
  have hsame (hi : ¬ i = index) :
      h.places[i]? = h.places[i]?.map fun slot => if i = index then slot.vacate else slot := by
    simp only [if_neg hi, Option.map_id']
  unfold freePlace
  split
  · next generation baseline o hslot =>
    by_cases hi : i = index
    · subst hi
      have hlt := (Array.getElem?_eq_some_iff.1 hslot).1
      rw [Array.getElem?_setIfInBounds_self_of_lt hlt, hslot, Option.map_some, if_pos rfl]
      rfl
    · rw [Array.getElem?_setIfInBounds_ne (Ne.symm hi)]
      exact hsame hi
  · next hnone =>
    by_cases hi : i = index
    · subst hi
      cases hslot : h.places[i]? with
      | none => rfl
      | some slot =>
        obtain ⟨generation, baseline, object⟩ := slot
        cases object with
        | none => rw [Option.map_some, if_pos rfl]; rfl
        | some o => exact absurd hslot (hnone generation baseline o)
    · exact hsame hi

theorem getElem?_sweep (h : Heap) (m : Marks) (indexes : List Nat) (i : Nat) :
    (h.sweep m indexes).places[i]? = h.places[i]?.map fun slot =>
      if i ∈ indexes ∧ m.objects[i]? ≠ some true then slot.vacate else slot := by
  induction indexes generalizing h with
  | nil => simp only [sweep, List.not_mem_nil, false_and, if_false, Option.map_id']
  | cons index rest ih =>
    rw [sweep]
    split
    · next hmarked =>
      rw [ih]
      congr 1
      funext slot
      have hiff : (i ∈ rest ∧ m.objects[i]? ≠ some true) ↔
          (i ∈ index :: rest ∧ m.objects[i]? ≠ some true) := by
        rw [List.mem_cons]
        refine ⟨fun hi => ⟨.inr hi.1, hi.2⟩, fun hi => ⟨hi.1.resolve_left ?_, hi.2⟩⟩
        rintro rfl
        exact hi.2 hmarked
      rw [if_congr hiff rfl rfl]
    · next hunmarked =>
      rw [ih, getElem?_freePlace, Option.map_map]
      congr 1
      funext slot
      by_cases hi : i = index
      · subst hi
        rw [if_pos (c := i ∈ i :: rest ∧ _) ⟨List.mem_cons_self, hunmarked⟩]
        simp only [Function.comp_apply, if_true, Slot.vacate_vacate, ite_self]
      · simp only [Function.comp_apply, List.mem_cons, hi, false_or, if_false]

/-! ## Soundness -/

theorem Sound.freePlace (hs : h.Sound) (index : Nat) : (h.freePlace index).Sound := by
  unfold Heap.freePlace
  split
  · next generation baseline o hslot =>
    have hlt := (Array.getElem?_eq_some_iff.1 hslot).1
    refine ⟨fun other hother => ?_, List.nodup_cons.2 ⟨fun hmem => ?_, hs.nodup⟩⟩
    · by_cases hne : index = other
      · subst hne
        exact ⟨_, Array.getElem?_setIfInBounds_self_of_lt hlt, rfl⟩
      · obtain ⟨slot, hslot', hvacant⟩ :=
          hs.vacant other ((List.mem_cons.1 hother).resolve_left (Ne.symm hne))
        exact ⟨slot, (Array.getElem?_setIfInBounds_ne hne).trans hslot', hvacant⟩
    · obtain ⟨slot, hslot', hvacant⟩ := hs.vacant index hmem
      rw [hslot] at hslot'
      obtain rfl := Option.some.inj hslot'
      exact nomatch hvacant
  · exact hs

theorem Sound.sweep (hs : h.Sound) (m : Marks) (indexes : List Nat) :
    (h.sweep m indexes).Sound := by
  induction indexes generalizing h with
  | nil => exact hs
  | cons index rest ih =>
    rw [Heap.sweep]
    split
    · exact ih hs
    · exact ih (hs.freePlace index)

/-! ## Collections -/

theorem alike_freePlace (h : Heap) (index : Nat) : h.Alike (h.freePlace index) := by
  unfold freePlace
  split <;> exact ⟨rfl, rfl, rfl, rfl⟩

theorem alike_sweep (h : Heap) (m : Marks) (indexes : List Nat) : h.Alike (h.sweep m indexes) := by
  induction indexes generalizing h with
  | nil => exact .refl h
  | cons index rest ih =>
    rw [sweep]
    split
    · exact ih h
    · exact (h.alike_freePlace index).trans (ih _)

/-- A heap after a collection that kept what is marked. -/
structure Kept (h : Heap) (s : Scopes) (m : Marks) (h' : Heap) : Prop where
  closed : m.Closed h s []
  alike : h.Alike h'
  sound : h.Sound → h'.Sound
  places : ∀ i : Nat, h'.places[i]? =
    h.places[i]?.map fun slot => if m.objects[i]? = some true then slot else slot.vacate

theorem Kept.find?_eq {s : Scopes} (hk : h.Kept s m h')
    (hmarked : m.objects[id.index]? = some true) : h'.find? id = h.find? id := by
  refine find?_congr hk.alike.arena ?_
  rw [hk.places]
  simp only [if_pos hmarked, Option.map_id']

theorem Kept.find?_eq_none {s : Scopes} (hk : h.Kept s m h')
    (hunmarked : m.objects[id.index]? ≠ some true) : h'.find? id = none := by
  have hplace := hk.places id.index
  simp only [if_neg hunmarked] at hplace
  cases hslot : h.places[id.index]? with
  | none =>
    rw [hslot] at hplace
    exact find?_eq_none_of_size_le (Array.getElem?_eq_none_iff.1 hplace)
  | some slot =>
    rw [hslot] at hplace
    exact find?_eq_none_of_vacant hplace slot.object_vacate

theorem collect_swept (h : Heap) (s : Scopes) (roots : List Value) (scopes : List ScopeId) :
    ∃ m, (h.collect s roots scopes).2 =
        { h.sweep m (List.range h.places.size) with allocated := 0 } ∧ m.Closed h s [] ∧
      (∀ id, .object id ∈ roots → m.Reached h s (.object id)) ∧
      ∀ id ∈ scopes, m.Reached h s (.scope id) := by
  have hmark := Heap.mark_closed (Marks.Closed.none h s
    (roots.filterMap Value.reference? ++ scopes.map .scope))
  obtain ⟨hclosed, -, hreached⟩ := hmark
  refine ⟨_, rfl, hclosed, fun id hid => ?_, fun id hid => ?_⟩
  · exact hreached _ (List.mem_append_left _ (List.mem_filterMap.2 ⟨_, hid, rfl⟩))
  · exact hreached _ (List.mem_append_right _ (List.mem_map_of_mem hid))

theorem collect_kept (h : Heap) (s : Scopes) (roots : List Value) (scopes : List ScopeId) :
    ∃ m, h.Kept s m (h.collect s roots scopes).2 ∧
      (∀ id, .object id ∈ roots → m.Reached h s (.object id)) ∧
      ∀ id ∈ scopes, m.Reached h s (.scope id) := by
  obtain ⟨m, hcollect, hclosed, hroots, hscopes⟩ := h.collect_swept s roots scopes
  refine ⟨m, ⟨hclosed, ?_, fun hs => ?_, fun i => ?_⟩, hroots, hscopes⟩
  · rw [hcollect]
    obtain ⟨harena, hslots, hstring, htombstone⟩ := h.alike_sweep m (List.range h.places.size)
    exact ⟨harena, hslots, hstring, htombstone⟩
  · rw [hcollect]
    obtain ⟨hvacant, hnodup⟩ := hs.sweep m (List.range h.places.size)
    exact ⟨hvacant, hnodup⟩
  · rw [hcollect]
    dsimp only
    rw [getElem?_sweep]
    cases hslot : h.places[i]? with
    | none => rfl
    | some slot =>
      have hlt := (Array.getElem?_eq_some_iff.1 hslot).1
      simp only [Option.map_some, List.mem_range, hlt, true_and, ne_eq, ite_not]

theorem collect_of_markFor {h : Heap} {s : Scopes} {roots : List Value} {scopes : List ScopeId}
    {n : Nat} {m : Marks} (hm : h.markFor s n (.none h.places.size s.size)
      (roots.filterMap Value.reference? ++ scopes.map .scope) = some m) :
    (h.collect s roots scopes).2 =
      { h.sweep m (List.range h.places.size) with allocated := 0 } := by
  unfold collect
  rw [mark_of_markFor hm]

/-- The heap after the collection that comes before a run, if it wants one. -/
def tidied (h : Heap) (s : Scopes) (roots : List Value) (scopes : List ScopeId) : Heap :=
  if h.wantsCollection then (h.collect s roots scopes).2 else h

theorem wantsCollection_tidied (h : Heap) (s : Scopes) (roots : List Value)
    (scopes : List ScopeId) : (h.tidied s roots scopes).wantsCollection = false := by
  unfold tidied
  split
  · rfl
  · next hwants => exact Bool.eq_false_iff.2 hwants

theorem tidied_kept (h : Heap) (s : Scopes) (roots : List Value) (scopes : List ScopeId) :
    h.tidied s roots scopes = h ∨ ∃ m, h.Kept s m (h.tidied s roots scopes) ∧
      (∀ id, .object id ∈ roots → m.Reached h s (.object id)) ∧
      ∀ id ∈ scopes, m.Reached h s (.scope id) := by
  unfold tidied
  split
  · exact .inr (h.collect_kept s roots scopes)
  · exact .inl rfl

theorem alike_tidied (h : Heap) (s : Scopes) (roots : List Value) (scopes : List ScopeId) :
    h.Alike (h.tidied s roots scopes) := by
  rcases h.tidied_kept s roots scopes with hsame | ⟨m, hk, -⟩
  · rw [hsame]
    exact .refl h
  · exact hk.alike

theorem Kept.marked {s : Scopes} {o : HeapObject} (hk : h.Kept s m h') (ho : h'.find? id = some o) :
    m.objects[id.index]? = some true := by
  by_contra hunmarked
  exact nomatch (hk.find?_eq_none hunmarked).symm.trans ho

theorem find?_of_tidied {s : Scopes} {roots : List Value} {scopes : List ScopeId} {o : HeapObject}
    (ho : (h.tidied s roots scopes).find? id = some o) : h.find? id = some o := by
  rcases h.tidied_kept s roots scopes with hsame | ⟨m, hk, -⟩
  · exact hsame ▸ ho
  · exact (hk.find?_eq (hk.marked ho)).symm.trans ho

theorem Sound.tidied (hs : h.Sound) (s : Scopes) (roots : List Value) (scopes : List ScopeId) :
    (h.tidied s roots scopes).Sound := by
  rcases h.tidied_kept s roots scopes with hsame | ⟨m, hk, -⟩
  · rw [hsame]
    exact hs
  · exact hk.sound hs

theorem find?_tidied {roots : List Value} (hroot : .object id ∈ roots) (s : Scopes)
    (scopes : List ScopeId) : (h.tidied s roots scopes).find? id = h.find? id := by
  rcases h.tidied_kept s roots scopes with hsame | ⟨m, hk, hroots, -⟩
  · rw [hsame]
  · cases ho : h.find? id with
    | none =>
        refine Option.eq_none_iff_forall_ne_some.2 fun o hfind => ?_
        exact nomatch ho.symm.trans (find?_of_tidied hfind)
    | some o => exact (hk.find?_eq (hroots id hroot o ho)).trans ho

end Heap

end ScriptHost

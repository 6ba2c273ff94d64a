import ScriptHost.Proofs.Heap.Sweeping

/-!
Heaps that differ in their tombstones alone.
-/

namespace ScriptHost.Heap

variable {h : Heap} {t : HeapObject} {id : ObjectId} {o : HeapObject}

def buried (h : Heap) (t : HeapObject) : Heap :=
  { h with tombstone := t }

@[simp] theorem find?_buried (h : Heap) (t : HeapObject) (id : ObjectId) :
    (h.buried t).find? id = h.find? id := rfl

theorem update_buried (hid : h.find? id = some o) (f : HeapObject → HeapObject) :
    (h.buried t).update id f = (h.update id f).buried t := by
  rw [update_of_find? hid, update_of_find? ((h.find?_buried t id).trans hid)]
  rfl

theorem place_buried (h : Heap) (t o : HeapObject) (baseline : Nat) :
    (h.buried t).place o baseline =
      ((h.place o baseline).1, (h.place o baseline).2.buried t) := by
  have hfree : (h.buried t).free = h.free := rfl
  unfold place
  rw [hfree]
  cases h.free <;> rfl

theorem freePlace_buried (h : Heap) (t : HeapObject) (index : Nat) :
    (h.buried t).freePlace index = (h.freePlace index).buried t := by
  have hplaces : (h.buried t).places = h.places := rfl
  unfold freePlace
  rw [hplaces]
  split <;> rfl

theorem sweep_buried (h : Heap) (t : HeapObject) (m : Marks) (indexes : List Nat) :
    (h.buried t).sweep m indexes = (h.sweep m indexes).buried t := by
  induction indexes generalizing h with
  | nil => rfl
  | cons index rest ih =>
    rw [sweep, sweep]
    split
    · exact ih h
    · rw [freePlace_buried]
      exact ih (h.freePlace index)

/-! ## Collections -/

/-- What is known leads to what is known, and the known scopes are the same. -/
structure Trail (h : Heap) (s s' : Scopes) (known : Reference → Prop) : Prop where
  same : ∀ i, known (.scope i) → s'.get? i = s.get? i
  objects : ∀ id o, known (.object id) → h.find? id = some o → ∀ r ∈ o.references, known r
  scopes : ∀ i scope, known (.scope i) → s.get? i = some scope → ∀ r ∈ scope.references, known r

theorem Trail.mark {s s' : Scopes} {known : Reference → Prop} (ht : h.Trail s s' known)
    (t : HeapObject) (m : Marks) (work : List Reference) (hwork : ∀ r ∈ work, known r) :
    (h.buried t).mark s' m work = h.mark s m work := by
  have hrest {r : Reference} {work : List Reference} (hwork : ∀ q ∈ r :: work, known q) :
      ∀ q ∈ work, known q := fun q hq => hwork q (List.mem_cons_of_mem r hq)
  have happend {more work : List Reference} (hmore : ∀ q ∈ more, known q)
      (hwork : ∀ q ∈ work, known q) : ∀ q ∈ more ++ work, known q := fun q hq =>
    (List.mem_append.1 hq).elim (hmore q) (hwork q)
  induction m, work using Heap.mark.induct h s with
  | case1 m => rw [mark_nil, mark_nil]
  | case2 m id work o ho hmark ih =>
    have hid := hwork _ List.mem_cons_self
    have ho' : (h.buried t).find? id = some o := ho
    rw [mark_object ho' hmark, mark_object ho hmark]
    exact ih (happend (ht.objects id o hid ho) (hrest hwork))
  | case3 m id work o ho hmark ih =>
    have ho' : (h.buried t).find? id = some o := ho
    rw [mark_object_done ho' hmark, mark_object_done ho hmark]
    exact ih (hrest hwork)
  | case4 m id work ho ih =>
    have ho' : (h.buried t).find? id = none := ho
    rw [mark_object_gone ho', mark_object_gone ho]
    exact ih (hrest hwork)
  | case5 m i work scope hs hmark ih =>
    have hi := hwork _ List.mem_cons_self
    rw [mark_scope ((ht.same i hi).trans hs) hmark, mark_scope hs hmark]
    exact ih (happend (ht.scopes i scope hi hs) (hrest hwork))
  | case6 m i work scope hs hmark ih =>
    have hi := hwork _ List.mem_cons_self
    rw [mark_scope_done ((ht.same i hi).trans hs) hmark, mark_scope_done hs hmark]
    exact ih (hrest hwork)
  | case7 m i work hs ih =>
    have hi := hwork _ List.mem_cons_self
    rw [mark_scope_gone ((ht.same i hi).trans hs), mark_scope_gone hs]
    exact ih (hrest hwork)

theorem Trail.tidied {s s' : Scopes} {known : Reference → Prop} (ht : h.Trail s s' known)
    (t : HeapObject) {roots : List Value} {scopes : List ScopeId} (hsize : s'.size = s.size)
    (hroots : ∀ id, .object id ∈ roots → known (.object id))
    (hscopes : ∀ i ∈ scopes, known (.scope i)) :
    (h.buried t).tidied s' roots scopes = (h.tidied s roots scopes).buried t := by
  have hwork : ∀ r ∈ roots.filterMap Value.reference? ++ scopes.map .scope, known r := by
    intro r hr
    rcases List.mem_append.1 hr with hr | hr
    · obtain ⟨id, rfl, hid⟩ := Value.mem_of_reference? hr
      exact hroots id hid
    · obtain ⟨i, hi, rfl⟩ := List.mem_map.1 hr
      exact hscopes i hi
  have hmark := ht.mark t (.none h.places.size s.size) _ hwork
  have hwants : (h.buried t).wantsCollection = h.wantsCollection := rfl
  unfold Heap.tidied
  rw [hwants]
  split
  · unfold collect
    dsimp only
    rw [hsize]
    change { (h.buried t).sweep ((h.buried t).mark s' (.none h.places.size s.size) _)
      (List.range h.places.size) with allocated := 0 } = _
    rw [hmark, sweep_buried]
    rfl
  · rfl

end ScriptHost.Heap

import ScriptHost.Proofs.Coupling.Law
import ScriptHost.Proofs.Heap.Sweeping

/-!
Properties that every object of a heap has. They may depend on the handle; the tombstone has none.
-/

namespace ScriptHost.Heap

structure All (P : Option ObjectId → HeapObject → Prop) (h : Heap) : Prop where
  sound : h.Sound
  objects : ∀ id o, h.find? id = some o → P (some id) o
  tombstone : P none h.tombstone

namespace All

variable {P : Option ObjectId → HeapObject → Prop} {h k : Heap} {id : ObjectId} {o : HeapObject}

theorem empty (hP : P none ⟨.ordinary, []⟩) (arena : Nat) (limits : Limits) :
    (Heap.empty arena limits).All P := by
  refine ⟨.empty arena limits, fun id o ho => ?_, hP⟩
  have hnone : (Heap.empty arena limits).find? id = none :=
    find?_eq_none_of_size_le (Nat.zero_le id.index)
  exact nomatch hnone.symm.trans ho

theorem imp {Q : Option ObjectId → HeapObject → Prop} (ha : h.All P)
    (hPQ : ∀ i o, P i o → Q i o) : h.All Q :=
  ⟨ha.sound, fun id o ho => hPQ _ o (ha.objects id o ho), hPQ none _ ha.tombstone⟩

theorem object (ha : h.All P) (id : ObjectId) : ∃ i, P i (h.object id) := by
  cases ho : h.find? id with
  | some o => exact ⟨some id, object_eq ho ▸ ha.objects id o ho⟩
  | none =>
      have htombstone : h.object id = h.tombstone := by rw [Heap.object, ho, Option.getD_none]
      exact ⟨none, htombstone ▸ ha.tombstone⟩

theorem withUsed (ha : h.All P) (used : Nat) : { h with used := used }.All P :=
  ⟨⟨ha.sound.vacant, ha.sound.nodup⟩, ha.objects, ha.tombstone⟩

theorem placed (ha : h.All P) (hk : h.Placed o id k) (halike : h.Alike k) (ho : P (some id) o) :
    k.All P := by
  refine ⟨hk.sound, fun other p hp => ?_, halike.tombstone ▸ ha.tombstone⟩
  by_cases hother : other = id
  · obtain rfl := hother
    obtain rfl := Option.some.inj (hk.here.symm.trans hp)
    exact ho
  · exact ha.objects other p ((hk.elsewhere other hother).symm.trans hp)

theorem allocateHost (ha : h.All P) (ho : P (some (h.allocateHost o).1) o) :
    (h.allocateHost o).2.All P :=
  ha.placed (ha.sound.place o o.slots) (h.alike_place o o.slots) ho

theorem allocate (ha : h.All P) (ho : ∀ id, P (some id) o) : (left (allocate o) h).All P := by
  rcases ha.sound.allocate_cases o with hno | ⟨id, h', hok, hplaced, halike⟩
  · rw [left, hno]
    exact ha
  · rw [left, hok]
    exact ha.placed hplaced halike (ho id)

/-- A write through a stale handle goes to the tombstone. -/
theorem update (ha : h.All P) (id : ObjectId) {f : HeapObject → HeapObject}
    (hf : ∀ i o, P i o → P i (f o)) : (h.update id f).All P := by
  cases hid : h.find? id with
  | none =>
      have hlive : h.isLive id = false := by rw [isLive, hid]; rfl
      rw [Heap.update, hlive, if_neg Bool.false_ne_true]
      exact ⟨⟨ha.sound.vacant, ha.sound.nodup⟩, ha.objects, hf _ _ ha.tombstone⟩
  | some o =>
      refine ⟨ha.sound.update hid f, fun other p hp => ?_, ?_⟩
      · by_cases hother : other = id
        · obtain rfl := hother
          obtain rfl := Option.some.inj ((find?_update hid f).symm.trans hp)
          exact hf _ _ (ha.objects other o hid)
        · exact ha.objects other p ((find?_update_of_ne hid f hother).symm.trans hp)
      · rw [update_of_find? hid]
        exact ha.tombstone

theorem write (ha : h.All P) (w : Write) (id : ObjectId)
    (hw : ∀ i o, P i o → P i (w.change o)) : (left (w.step id) h).All P := by
  rcases w.step_result id h with hno | ⟨hok, -⟩
  · rw [left, hno]
    exact ha
  · rw [left, hok]
    exact (ha.update id hw).withUsed _

theorem tidied (ha : h.All P) (s : Scopes) (roots : List Value) (scopes : List ScopeId) :
    (h.tidied s roots scopes).All P := by
  refine ⟨ha.sound.tidied s roots scopes, fun id o ho => ?_, ?_⟩
  · exact ha.objects id o (find?_of_tidied ho)
  · exact (h.alike_tidied s roots scopes).tombstone ▸ ha.tombstone

end All

end ScriptHost.Heap

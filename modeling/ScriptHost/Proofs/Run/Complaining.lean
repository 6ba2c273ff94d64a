import ScriptHost.Proofs.Coupling.Law

/-!
What comes of a complaint: the error that it throws is new, unless there is no memory left for it.
-/

namespace ScriptHost

theorem Heap.refuses_of_allocate {h h' : Heap} {o : HeapObject} {reason : TerminationReason}
    (hno : Heap.allocate o h = .error reason h') : h.Refuses o.slots 0 := by
  by_contra hroom
  have hcharge : Heap.charge o.slots 0 h = .ok () { h with used := h.used + o.slots - 0 } :=
    if_neg hroom
  simp only [Heap.allocate, Bind.bind, EStateM.bind, hcharge] at hno
  cases hno

namespace Run

variable {α : Type}

inductive Complains (complaint : Complaint) (m : Machine) :
    EStateM.Result Abrupt Machine α → Prop
  | thrown {id : ObjectId} {heap : Heap} :
      m.heap.Placed (Heap.errorObject complaint.kind complaint.message) id heap →
      m.heap.Alike heap →
      Complains complaint m (.error (.thrown (.object id))
        { m.note (.text complaint.message) with heap := heap, throwLine := m.line })
  | exhausted : m.heap.Refuses (Heap.errorObject complaint.kind complaint.message).slots 0 →
      Complains complaint m (.error (.terminated .memoryLimit)
        ((m.note (.text complaint.message)).halt .memoryLimit))

theorem complain_complains {m : Machine} (hs : m.heap.Sound) (complaint : Complaint)
    (s : Setting) : Complains complaint m (complain complaint s m : EStateM.Result _ _ α) := by
  have hmade := hs.allocate_cases (Heap.errorObject complaint.kind complaint.message)
  rw [complain_eq]
  simp only [Heap.allocateError, Functor.map, EStateM.map]
  rcases hmade with hno | ⟨id, heap, hok, hplaced, halike⟩
  · rw [hno]
    exact .exhausted (Heap.refuses_of_allocate hno)
  · rw [hok]
    exact .thrown hplaced halike

end Run

end ScriptHost

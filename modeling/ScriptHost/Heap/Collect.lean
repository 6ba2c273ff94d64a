import ScriptHost.Heap.Basic

/-!
Collection: the objects that neither the roots nor the scopes reach are freed.
-/

namespace ScriptHost

inductive Reference where
  | object (id : ObjectId)
  | scope (id : ScopeId)
  deriving DecidableEq, Repr

def Value.reference? (v : Value) : Option Reference :=
  v.object?.map .object

def HeapObject.references (o : HeapObject) : List Reference :=
  o.values.filterMap Value.reference? ++ o.closure?.toList.map .scope

def Scope.references (s : Scope) : List Reference :=
  s.bindings.filterMap (fun (_, binding) => binding.value.reference?)
    ++ s.parent.toList.map .scope

structure Marks where
  objects : Array Bool
  scopes : Array Bool
  deriving DecidableEq, Repr

namespace Marks

def none (objects scopes : Nat) : Marks :=
  ⟨.replicate objects false, .replicate scopes false⟩

def unmarked (m : Marks) : Nat :=
  m.objects.count false + m.scopes.count false

theorem count_set_true {a : Array Bool} {i : Nat} (h : a[i]? = some false) :
    (a.setIfInBounds i true).count false < a.count false := by
  obtain ⟨hi, hv⟩ := Array.getElem?_eq_some_iff.1 h
  have hpos : 0 < a.count false := Array.count_pos_iff.2 (hv ▸ Array.getElem_mem hi)
  rw [Array.setIfInBounds_def, dif_pos hi, Array.count_set, hv]
  have hne : (true == false) = false := rfl
  simp only [hne, beq_self_eq_true, if_true, Bool.false_eq_true, if_false]
  omega

def markObject (m : Marks) (index : Nat) : Marks :=
  { m with objects := m.objects.setIfInBounds index true }

def markScope (m : Marks) (id : ScopeId) : Marks :=
  { m with scopes := m.scopes.setIfInBounds id true }

theorem unmarked_markObject {m : Marks} {index : Nat} (h : m.objects[index]? = some false) :
    (m.markObject index).unmarked < m.unmarked := by
  have := count_set_true h
  simp only [markObject, unmarked]
  omega

theorem unmarked_markScope {m : Marks} {id : ScopeId} (h : m.scopes[id]? = some false) :
    (m.markScope id).unmarked < m.unmarked := by
  have := count_set_true h
  simp only [markScope, unmarked]
  omega

end Marks

namespace Heap

/-- The marks once everything behind the references to do has been reached. -/
def mark (h : Heap) (s : Scopes) (m : Marks) (work : List Reference) : Marks :=
  match work with
  | [] => m
  | .object id :: work =>
      match h.find? id with
      | some object =>
          if _h : m.objects[id.index]? = some false then
            mark h s (m.markObject id.index) (object.references ++ work)
          else mark h s m work
      | none => mark h s m work
  | .scope id :: work =>
      match s.get? id with
      | some scope =>
          if _h : m.scopes[id]? = some false then
            mark h s (m.markScope id) (scope.references ++ work)
          else mark h s m work
      | none => mark h s m work
termination_by (m.unmarked, work.length)
decreasing_by
  · exact Prod.Lex.left _ _ (Marks.unmarked_markObject (by assumption))
  · exact Prod.Lex.right _ (Nat.lt_succ_self _)
  · exact Prod.Lex.right _ (Nat.lt_succ_self _)
  · exact Prod.Lex.left _ _ (Marks.unmarked_markScope (by assumption))
  · exact Prod.Lex.right _ (Nat.lt_succ_self _)
  · exact Prod.Lex.right _ (Nat.lt_succ_self _)

/-- The object at a place is freed, its handles go stale and its charge is given back. -/
def freePlace (h : Heap) (index : Nat) : Heap :=
  match h.places[index]? with
  | some ⟨generation, baseline, some object⟩ =>
      { h with
        places := h.places.setIfInBounds index ⟨generation + 1, baseline, none⟩
        free := index :: h.free
        used := h.used - (object.slots - baseline)
        live := h.live - 1 }
  | _ => h

def sweep (h : Heap) (m : Marks) : List Nat → Heap
  | [] => h
  | index :: rest =>
      if m.objects[index]? = some true then sweep h m rest
      else sweep (h.freePlace index) m rest

def collect (h : Heap) (s : Scopes) (roots : List Value) (scopes : List ScopeId) : Nat × Heap :=
  let marks := h.mark s (.none h.places.size s.size)
    (roots.filterMap Value.reference? ++ scopes.map .scope)
  let live := h.live
  let swept := h.sweep marks (List.range h.places.size)
  (live - swept.live, { swept with allocated := 0 })

def collectionInterval : Nat := 4096

/-- Whether a collection before the next run is worth its cost. -/
def wantsCollection (h : Heap) : Bool :=
  collectionInterval ≤ h.allocated
    || (0 < h.allocated && h.maxSlots ≠ 0 && h.maxSlots < h.used * 2)

end Heap

end ScriptHost

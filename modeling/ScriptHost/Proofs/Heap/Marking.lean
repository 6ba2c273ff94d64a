import ScriptHost.Heap.Collect
import ScriptHost.Proofs.Heap.Handles

/-!
Marking reaches whatever the roots lead to: the marks end up closed under references.
-/

namespace ScriptHost

theorem Value.mem_of_reference? {vs : List Value} {r : Reference}
    (h : r ∈ vs.filterMap Value.reference?) : ∃ id, r = .object id ∧ .object id ∈ vs := by
  obtain ⟨v, hv, hr⟩ := List.mem_filterMap.1 h
  cases v with
  | object id => exact ⟨id, (Option.some.inj hr).symm, hv⟩
  | _ => exact nomatch hr

/-! ## One reference at a time -/

namespace Heap

variable {h : Heap} {s : Scopes} {m : Marks} {work : List Reference}

theorem mark_nil (h : Heap) (s : Scopes) (m : Marks) : h.mark s m [] = m := by
  rw [mark]

section

variable {id : ObjectId} {o : HeapObject}

theorem mark_object (ho : h.find? id = some o) (hm : m.objects[id.index]? = some false) :
    h.mark s m (.object id :: work) =
      h.mark s (m.markObject id.index) (o.references ++ work) := by
  rw [mark, ho]
  exact dif_pos hm

theorem mark_object_done (ho : h.find? id = some o) (hm : m.objects[id.index]? ≠ some false) :
    h.mark s m (.object id :: work) = h.mark s m work := by
  rw [mark, ho]
  exact dif_neg hm

theorem mark_object_gone (ho : h.find? id = none) :
    h.mark s m (.object id :: work) = h.mark s m work := by
  rw [mark, ho]

end

section

variable {id : ScopeId} {scope : Scope}

theorem mark_scope (hs : s.get? id = some scope) (hm : m.scopes[id]? = some false) :
    h.mark s m (.scope id :: work) =
      h.mark s (m.markScope id) (scope.references ++ work) := by
  rw [mark, hs]
  exact dif_pos hm

theorem mark_scope_done (hs : s.get? id = some scope) (hm : m.scopes[id]? ≠ some false) :
    h.mark s m (.scope id :: work) = h.mark s m work := by
  rw [mark, hs]
  exact dif_neg hm

theorem mark_scope_gone (hs : s.get? id = none) :
    h.mark s m (.scope id :: work) = h.mark s m work := by
  rw [mark, hs]

end

/-! ## So many references at most -/

/-- The marks once all is reached, unless that takes more references than given. -/
def markFor (h : Heap) (s : Scopes) : Nat → Marks → List Reference → Option Marks
  | _, m, [] => some m
  | 0, _, _ :: _ => none
  | n + 1, m, .object id :: work =>
      match h.find? id with
      | some object =>
          if m.objects[id.index]? = some false then
            markFor h s n (m.markObject id.index) (object.references ++ work)
          else markFor h s n m work
      | none => markFor h s n m work
  | n + 1, m, .scope id :: work =>
      match s.get? id with
      | some scope =>
          if m.scopes[id]? = some false then
            markFor h s n (m.markScope id) (scope.references ++ work)
          else markFor h s n m work
      | none => markFor h s n m work

theorem mark_of_markFor {n : Nat} {m' : Marks} (hm : h.markFor s n m work = some m') :
    h.mark s m work = m' := by
  induction n generalizing m work with
  | zero =>
    cases work with
    | nil => exact (mark_nil h s m).trans (Option.some.inj hm)
    | cons r work => exact nomatch hm
  | succ n ih =>
    cases work with
    | nil => exact (mark_nil h s m).trans (Option.some.inj hm)
    | cons r work =>
      cases r with
      | object id =>
        rw [markFor] at hm
        cases ho : h.find? id with
        | none =>
          rw [ho] at hm
          rw [mark_object_gone ho, ih hm]
        | some o =>
          rw [ho] at hm
          by_cases hfresh : m.objects[id.index]? = some false
          · rw [mark_object ho hfresh, ih ((if_pos hfresh).symm.trans hm)]
          · rw [mark_object_done ho hfresh, ih ((if_neg hfresh).symm.trans hm)]
      | scope id =>
        rw [markFor] at hm
        cases hs : s.get? id with
        | none =>
          rw [hs] at hm
          rw [mark_scope_gone hs, ih hm]
        | some scope =>
          rw [hs] at hm
          by_cases hfresh : m.scopes[id]? = some false
          · rw [mark_scope hs hfresh, ih ((if_pos hfresh).symm.trans hm)]
          · rw [mark_scope_done hs hfresh, ih ((if_neg hfresh).symm.trans hm)]

end Heap

/-! ## All of the work -/

namespace Marks

variable {h : Heap} {s : Scopes} {m m' m'' : Marks} {work : List Reference} {r : Reference}

structure Within (m m' : Marks) : Prop where
  objects : ∀ index : Nat, m.objects[index]? = some true → m'.objects[index]? = some true
  scopes : ∀ id : ScopeId, m.scopes[id]? = some true → m'.scopes[id]? = some true

theorem Within.refl (m : Marks) : m.Within m :=
  ⟨fun _ => id, fun _ => id⟩

theorem Within.trans (h : m.Within m') (h' : m'.Within m'') : m.Within m'' :=
  ⟨fun index hm => h'.objects index (h.objects index hm),
    fun id hm => h'.scopes id (h.scopes id hm)⟩

theorem set_true {a : Array Bool} {i j : Nat} (hj : a[j]? = some true) :
    (a.setIfInBounds i true)[j]? = some true := by
  rw [Array.getElem?_setIfInBounds]
  split
  · next hij =>
    rw [if_pos (hij ▸ (Array.getElem?_eq_some_iff.1 hj).1)]
  · exact hj

theorem set_self {a : Array Bool} {i : Nat} (hi : i < a.size) :
    (a.setIfInBounds i true)[i]? = some true :=
  Array.getElem?_setIfInBounds_self_of_lt hi

theorem of_set {a : Array Bool} {i j : Nat} (hj : (a.setIfInBounds i true)[j]? = some true) :
    j = i ∨ a[j]? = some true := by
  rw [Array.getElem?_setIfInBounds] at hj
  split at hj
  · next hij => exact .inl hij.symm
  · exact .inr hj

theorem within_markObject (m : Marks) (index : Nat) : m.Within (m.markObject index) :=
  ⟨fun _ => set_true, fun _ hm => hm⟩

theorem within_markScope (m : Marks) (id : ScopeId) : m.Within (m.markScope id) :=
  ⟨fun _ hm => hm, fun _ => set_true⟩

def Reached (m : Marks) (h : Heap) (s : Scopes) : Reference → Prop
  | .object id => ∀ o, h.find? id = some o → m.objects[id.index]? = some true
  | .scope id => ∀ scope, s.get? id = some scope → m.scopes[id]? = some true

theorem Reached.mono (hm : m.Within m') (hr : m.Reached h s r) : m'.Reached h s r := by
  cases r with
  | object id => exact fun o ho => hm.objects _ (hr o ho)
  | scope id => exact fun scope hscope => hm.scopes _ (hr scope hscope)

/-- What is behind the marks is marked, but for the references still to do. -/
structure Closed (m : Marks) (h : Heap) (s : Scopes) (work : List Reference) : Prop where
  objectSize : m.objects.size = h.places.size
  scopeSize : m.scopes.size = s.size
  objects : ∀ id o, h.find? id = some o → m.objects[id.index]? = some true →
    ∀ r ∈ o.references, m.Reached h s r ∨ r ∈ work
  scopes : ∀ id scope, s.get? id = some scope → m.scopes[id]? = some true →
    ∀ r ∈ scope.references, m.Reached h s r ∨ r ∈ work

namespace Closed

theorem none (h : Heap) (s : Scopes) (work : List Reference) :
    (Marks.none h.places.size s.size).Closed h s work := by
  have hunmarked {n i : Nat} : (Array.replicate n false)[i]? ≠ some true := by
    rw [Array.getElem?_replicate]
    split <;> exact nofun
  exact ⟨Array.size_replicate, Array.size_replicate, fun _ _ _ hm => absurd hm hunmarked,
    fun _ _ _ hm => absurd hm hunmarked⟩

theorem skip (hm : m.Closed h s (r :: work)) (hr : m.Reached h s r) : m.Closed h s work := by
  have hdone {q : Reference} (hq : m.Reached h s q ∨ q ∈ r :: work) :
      m.Reached h s q ∨ q ∈ work := by
    rcases hq with hq | hq
    · exact .inl hq
    · rcases List.mem_cons.1 hq with rfl | hq
      · exact .inl hr
      · exact .inr hq
  exact ⟨hm.objectSize, hm.scopeSize,
    fun id o ho hmark q hq => hdone (hm.objects id o ho hmark q hq),
    fun id scope hs hmark q hq => hdone (hm.scopes id scope hs hmark q hq)⟩

theorem advance {more : List Reference} (hm : m.Closed h s (r :: work)) (hw : m.Within m')
    (hr : m'.Reached h s r) {q : Reference} (hq : m.Reached h s q ∨ q ∈ r :: work) :
    m'.Reached h s q ∨ q ∈ more ++ work := by
  rcases hq with hq | hq
  · exact .inl (hq.mono hw)
  · rcases List.mem_cons.1 hq with rfl | hq
    · exact .inl hr
    · exact .inr (List.mem_append_right _ hq)

theorem reached_markObject {id : ObjectId} {o : HeapObject} (hm : m.Closed h s work)
    (ho : h.find? id = some o) : (m.markObject id.index).objects[id.index]? = some true := by
  obtain ⟨-, slot, hslot, -⟩ := Heap.find?_eq_some.1 ho
  exact set_self (hm.objectSize ▸ (Array.getElem?_eq_some_iff.1 hslot).1)

theorem markObject {id : ObjectId} {o : HeapObject} (hm : m.Closed h s (.object id :: work))
    (ho : h.find? id = some o) :
    (m.markObject id.index).Closed h s (o.references ++ work) := by
  have hreached : (m.markObject id.index).Reached h s (.object id) :=
    fun _ _ => hm.reached_markObject ho
  have hw := m.within_markObject id.index
  refine ⟨?_, hm.scopeSize, fun other o' ho' hmark q hq => ?_, fun other scope hs hmark q hq => ?_⟩
  · rw [Marks.markObject, Array.size_setIfInBounds, hm.objectSize]
  · rcases of_set hmark with hindex | hmark
    · obtain rfl : other = id := by
        obtain ⟨harena, slot, hslot, hgeneration, -⟩ := Heap.find?_eq_some.1 ho
        by_contra hne
        rw [Heap.find?_eq_none_of_ne id harena hslot hgeneration hne hindex] at ho'
        cases ho'
      rw [ho] at ho'
      obtain rfl := Option.some.inj ho'
      exact .inr (List.mem_append_left _ hq)
    · exact hm.advance hw hreached (hm.objects other o' ho' hmark q hq)
  · exact hm.advance hw hreached (hm.scopes other scope hs hmark q hq)

theorem reached_markScope {id : ScopeId} {scope : Scope} (hm : m.Closed h s work)
    (hs : s.get? id = some scope) : (m.markScope id).scopes[id]? = some true :=
  set_self (hm.scopeSize ▸ (Array.getElem?_eq_some_iff.1 hs).1)

theorem markScope {id : ScopeId} {scope : Scope} (hm : m.Closed h s (.scope id :: work))
    (hs : s.get? id = some scope) :
    (m.markScope id).Closed h s (scope.references ++ work) := by
  have hreached : (m.markScope id).Reached h s (.scope id) := fun _ _ => hm.reached_markScope hs
  have hw := m.within_markScope id
  refine ⟨hm.objectSize, ?_, fun other o ho hmark q hq => ?_, fun other scope' hs' hmark q hq => ?_⟩
  · rw [Marks.markScope, Array.size_setIfInBounds, hm.scopeSize]
  · exact hm.advance hw hreached (hm.objects other o ho hmark q hq)
  · rcases of_set hmark with rfl | hmark
    · rw [hs] at hs'
      obtain rfl := Option.some.inj hs'
      exact .inr (List.mem_append_left _ hq)
    · exact hm.advance hw hreached (hm.scopes other scope' hs' hmark q hq)

theorem reached_of_object {id : ObjectId} {o : HeapObject} (hm : m.Closed h s work)
    (ho : h.find? id = some o) (hmark : m.objects[id.index]? ≠ some false) :
    m.Reached h s (.object id) := by
  intro _ _
  obtain ⟨-, slot, hslot, -⟩ := Heap.find?_eq_some.1 ho
  have hlt := hm.objectSize ▸ (Array.getElem?_eq_some_iff.1 hslot).1
  rw [Array.getElem?_eq_getElem hlt] at hmark ⊢
  simpa using hmark

theorem reached_of_scope {id : ScopeId} {scope : Scope} (hm : m.Closed h s work)
    (hs : s.get? id = some scope) (hmark : m.scopes[id]? ≠ some false) :
    m.Reached h s (.scope id) := by
  intro _ _
  have hlt : id < m.scopes.size := hm.scopeSize.symm ▸ (Array.getElem?_eq_some_iff.1 hs).1
  rw [Array.getElem?_eq_getElem hlt] at hmark ⊢
  simpa using hmark

end Closed

/-- The marks once the work is done: nothing is left behind them, and the work was reached. -/
structure Completes (m : Marks) (h : Heap) (s : Scopes) (work : List Reference) (m' : Marks) :
    Prop where
  closed : m'.Closed h s []
  within : m.Within m'
  reached : ∀ r ∈ work, m'.Reached h s r

namespace Completes

theorem nil (hm : m.Closed h s []) : m.Completes h s [] m :=
  ⟨hm, .refl m, fun _ hr => absurd hr List.not_mem_nil⟩

theorem cons (hm : m'.Completes h s work m'') (hw : m.Within m') (hr : m'.Reached h s r) :
    m.Completes h s (r :: work) m'' := by
  refine ⟨hm.closed, hw.trans hm.within, fun q hq => ?_⟩
  rcases List.mem_cons.1 hq with rfl | hq
  · exact hr.mono hm.within
  · exact hm.reached q hq

theorem drop {more : List Reference} (hm : m.Completes h s (more ++ work) m') :
    m.Completes h s work m' :=
  ⟨hm.closed, hm.within, fun q hq => hm.reached q (List.mem_append_right _ hq)⟩

theorem skip (hm : m.Completes h s work m') (hr : m.Reached h s r) :
    m.Completes h s (r :: work) m' :=
  hm.cons (.refl m) hr

end Completes

end Marks

/-- Marking goes on until all of the work is done and nothing more is left behind the marks. -/
theorem Heap.mark_closed {h : Heap} {s : Scopes} {m : Marks} {work : List Reference}
    (hm : m.Closed h s work) : m.Completes h s work (h.mark s m work) := by
  induction m, work using Heap.mark.induct h s with
  | case1 m =>
    rw [mark_nil]
    exact .nil hm
  | case2 m id work o ho hmark ih =>
    rw [mark_object ho hmark]
    exact (ih (hm.markObject ho)).drop.cons (m.within_markObject _)
      fun _ _ => hm.reached_markObject ho
  | case3 m id work o ho hmark ih =>
    have hreached := hm.reached_of_object ho hmark
    rw [mark_object_done ho hmark]
    exact (ih (hm.skip hreached)).skip hreached
  | case4 m id work ho ih =>
    have hreached : m.Reached h s (.object id) := fun o ho' => nomatch ho.symm.trans ho'
    rw [mark_object_gone ho]
    exact (ih (hm.skip hreached)).skip hreached
  | case5 m id work scope hs hmark ih =>
    rw [mark_scope hs hmark]
    exact (ih (hm.markScope hs)).drop.cons (m.within_markScope _)
      fun _ _ => hm.reached_markScope hs
  | case6 m id work scope hs hmark ih =>
    have hreached := hm.reached_of_scope hs hmark
    rw [mark_scope_done hs hmark]
    exact (ih (hm.skip hreached)).skip hreached
  | case7 m id work hs ih =>
    have hreached : m.Reached h s (.scope id) := fun scope hs' => nomatch hs.symm.trans hs'
    rw [mark_scope_gone hs]
    exact (ih (hm.skip hreached)).skip hreached

end ScriptHost

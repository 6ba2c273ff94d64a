import ScriptHost.Proofs.Heap.Records
import ScriptHost.Proofs.Heap.Writes

/-!
Several heaps that are made and used side by side, with a record of every object put into each of
them.
-/

namespace ScriptHost

/-- What is done to one heap. -/
inductive HeapUse where
  | allocate (object : HeapObject)
  | allocateHost (object : HeapObject)
  | setUp (id : ObjectId) (key : String) (value : Value)
  | write (id : ObjectId) (w : Heap.Write)
  | collect (scopes : Scopes) (roots : List Value) (opened : List ScopeId)

structure Holding where
  heap : Heap
  records : List Record

namespace Holding

def add (a : Holding) (object : HeapObject) (placed : ObjectId × Heap) : Holding :=
  ⟨placed.2, a.records ++ [⟨placed.1, some object⟩]⟩

/-- A refused allocation gives no handle, and a refused write leaves the object as it is. -/
def perform (a : Holding) : HeapUse → Holding
  | .allocate object =>
      match Heap.allocate object a.heap with
      | .ok id heap => a.add object (id, heap)
      | .error _ heap => ⟨heap, a.records⟩
  | .allocateHost object => a.add object (a.heap.allocateHost object)
  | .setUp id key value =>
      ⟨a.heap.update id fun o => o.put key value,
        a.records.map (Record.rewrite id fun o => o.put key value)⟩
  | .write id w =>
      match w.step id a.heap with
      | .ok _ heap => ⟨heap, a.records.map (Record.rewrite id w.change)⟩
      | .error _ heap => ⟨heap, a.records⟩
  | .collect scopes roots opened =>
      let heap := (a.heap.collect scopes roots opened).2
      ⟨heap, a.records.map (Record.expire fun i =>
        (a.heap.occupant i).isSome && (heap.occupant i).isNone)⟩

def Traced (a : Holding) : Prop :=
  a.heap.Traced a.records

variable {a : Holding}

theorem Traced.add (ht : a.Traced) (object : HeapObject) (used baseline : Nat) :
    (a.add object ({ a.heap with used := used }.place object baseline)).Traced :=
  (Heap.Traced.withUsed ht used).place object baseline

theorem Traced.perform (ht : a.Traced) (use : HeapUse) : (a.perform use).Traced := by
  cases use with
  | allocate object =>
      simp only [Holding.perform, Heap.allocate, Bind.bind, EStateM.bind]
      rcases Heap.charge_cases object.slots 0 a.heap with hno | ⟨hok, -⟩
      · rw [hno]
        exact ht
      · rw [hok]
        exact ht.add object (a.heap.used + object.slots - 0) 0
  | allocateHost object => exact ht.add object a.heap.used object.slots
  | setUp id key value => exact Heap.Traced.update ht id fun o => o.put key value
  | write id w =>
      simp only [Holding.perform]
      rcases w.step_cases id a.heap with hno | ⟨grow, release, heap, hok, haccounted⟩
      · rw [hno]
        exact ht
      · rw [hok, haccounted.result]
        exact (Heap.Traced.update ht id w.change).withUsed _
  | collect scopes roots opened => exact Heap.Traced.collect ht scopes roots opened

theorem arena_perform (a : Holding) (use : HeapUse) :
    (a.perform use).heap.arena = a.heap.arena := by
  cases use with
  | allocate object =>
      simp only [Holding.perform, Heap.allocate, Bind.bind, EStateM.bind]
      rcases Heap.charge_cases object.slots 0 a.heap with hno | ⟨hok, -⟩
      · rw [hno]
      · rw [hok]
        exact (Heap.alike_place _ object 0).arena
  | allocateHost object => exact (Heap.alike_place _ object _).arena
  | setUp id key value => exact (a.heap.ages_update id _).arena
  | write id w =>
      simp only [Holding.perform]
      rcases w.step_cases id a.heap with hno | ⟨grow, release, heap, hok, haccounted⟩
      · rw [hno]
      · rw [hok, haccounted.result]
        exact (a.heap.ages_update id _).arena
  | collect scopes roots opened =>
      obtain ⟨m, hk, -⟩ := a.heap.collect_kept scopes roots opened
      exact hk.alike.arena

end Holding

/-- The number that the next heap gets is counted like the generations of its places. -/
structure Estate where
  holdings : List Holding
  next : UInt32

inductive Dealing where
  | create (limits : Limits)
  | act (k : Nat) (use : HeapUse)

namespace Estate

def start : Estate := ⟨[], 1⟩

def step (e : Estate) : Dealing → Estate
  | .create limits => ⟨e.holdings ++ [⟨.empty e.next.toNat limits, []⟩], e.next + 1⟩
  | .act k use => { e with holdings := e.holdings.modify k fun a => a.perform use }

def run (dealings : List Dealing) : Estate :=
  dealings.foldl step start

/-- Heaps are numbered in the order they were made in. -/
structure Ordered (e : Estate) : Prop where
  next : e.next = UInt32.ofNat (e.holdings.length + 1)
  holdings : ∀ (k : Nat) (a : Holding), e.holdings[k]? = some a →
    a.Traced ∧ a.heap.arena = (UInt32.ofNat (k + 1)).toNat

theorem Ordered.start : Ordered start :=
  ⟨rfl, fun _ _ ha => nomatch ha⟩

variable {e : Estate}

theorem Ordered.step (ho : e.Ordered) (d : Dealing) : (e.step d).Ordered := by
  cases d with
  | create limits =>
      refine ⟨?_, fun k a ha => ?_⟩
      · simp only [Estate.step, ho.next, List.length_append, List.length_singleton]
        exact (UInt32.ofNat_add _ _).symm
      · rcases Nat.lt_trichotomy k e.holdings.length with hk | rfl | hk
        · simp only [Estate.step, List.getElem?_append_left hk] at ha
          exact ho.holdings k a ha
        · simp only [Estate.step, List.getElem?_concat_length, Option.some.injEq] at ha
          subst ha
          exact ⟨.empty _ limits, by rw [ho.next]; rfl⟩
        · rw [Estate.step, List.getElem?_eq_none (by simp; omega)] at ha
          cases ha
  | act k use =>
      refine ⟨by simpa [Estate.step] using ho.next, fun j a ha => ?_⟩
      simp only [Estate.step, List.getElem?_modify] at ha
      obtain ⟨old, hold, rfl⟩ := Option.map_eq_some_iff.1 ha
      obtain ⟨ht, harena⟩ := ho.holdings j old hold
      split
      · exact ⟨ht.perform use, (Holding.arena_perform old use).trans harena⟩
      · exact ⟨ht, harena⟩

theorem Ordered.run (dealings : List Dealing) : (run dealings).Ordered := by
  unfold Estate.run
  suffices h : ∀ e : Estate, e.Ordered → (dealings.foldl Estate.step e).Ordered from h _ .start
  induction dealings with
  | nil => exact fun e ho => ho
  | cons d rest ih => exact fun e ho => ih (e.step d) (ho.step d)

/-- What the handles of an estate mean, and how the heaps keep their places. -/
structure Faithful (e : Estate) : Prop where
  owns : ∀ (k k' : Nat) (a a' : Holding), e.holdings[k]? = some a → e.holdings[k']? = some a' →
    ∀ r ∈ a.records,
      (a'.heap.owns (.object r.handle) = true ↔ k' = k ∧ r.content.isSome) ∧
        ∀ o, k' = k → r.content = some o → a'.heap.object r.handle = o
  distinct : (e.holdings.flatMap fun a => a.records.map Record.handle).Nodup
  vacant : ∀ a ∈ e.holdings, ∀ (o : HeapObject) (baseline : Nat),
    a.heap.occupant (a.heap.place o baseline).1.index = none
  nodup : ∀ a ∈ e.holdings, a.heap.free.Nodup
  free : ∀ a ∈ e.holdings, ∀ i, i ∈ a.heap.free ↔ i < a.heap.places.size ∧ a.heap.occupant i = none
  live : ∀ a ∈ e.holdings, a.heap.live = a.records.countP Record.isLive

theorem Ordered.index_eq (ho : e.Ordered) (hcount : e.holdings.length < 2 ^ 32) {k k' : Nat}
    {a a' : Holding} (ha : e.holdings[k]? = some a) (ha' : e.holdings[k']? = some a')
    (harena : a.heap.arena = a'.heap.arena) : k = k' := by
  have hk := (List.getElem?_eq_some_iff.1 ha).1
  have hk' := (List.getElem?_eq_some_iff.1 ha').1
  rw [(ho.holdings k a ha).2, (ho.holdings k' a' ha').2] at harena
  have := uint32_ofNat_injective (by omega) (by omega) (UInt32.toNat_inj.1 harena)
  omega

theorem Ordered.traced (ho : e.Ordered) {a : Holding} (ha : a ∈ e.holdings) : a.Traced := by
  obtain ⟨k, hk⟩ := List.getElem?_of_mem ha
  exact (ho.holdings k a hk).1

theorem Ordered.find?_of_ne (ho : e.Ordered) (hcount : e.holdings.length < 2 ^ 32) {k k' : Nat}
    {a a' : Holding} (ha : e.holdings[k]? = some a) (ha' : e.holdings[k']? = some a')
    (hk : k' ≠ k) {r : Record} (hr : r ∈ a.records) : a'.heap.find? r.handle = none := by
  refine Option.eq_none_iff_forall_ne_some.2 fun o hfind => hk ?_
  obtain ⟨harena, -⟩ := Heap.find?_eq_some.1 hfind
  rw [(ho.traced (List.mem_of_getElem? ha)).arena r hr] at harena
  exact (ho.index_eq hcount ha ha' harena).symm

theorem Ordered.distinct (ho : e.Ordered) (hcount : e.holdings.length < 2 ^ 32)
    (hfrees : ∀ a ∈ e.holdings, ∀ i, Heap.frees a.records i < 2 ^ 32) :
    (e.holdings.flatMap fun a => a.records.map Record.handle).Nodup := by
  rw [List.nodup_flatMap]
  refine ⟨fun a ha => (ho.traced ha).nodup_handles (hfrees a ha), ?_⟩
  rw [List.pairwise_iff_getElem]
  intro j k hj hk hjk id hid hid'
  obtain ⟨r, hr, rfl⟩ := List.mem_map.1 hid
  obtain ⟨r', hr', hsame⟩ := List.mem_map.1 hid'
  have harena := (ho.traced (List.getElem_mem hj)).arena r hr
  have harena' := (ho.traced (List.getElem_mem hk)).arena r' hr'
  rw [hsame] at harena'
  have := ho.index_eq hcount (List.getElem?_eq_getElem hj) (List.getElem?_eq_getElem hk)
    (harena.symm.trans harena')
  omega

theorem mem_free_iff {a : Holding} (ht : a.Traced) (i : Nat) :
    i ∈ a.heap.free ↔ i < a.heap.places.size ∧ a.heap.occupant i = none := by
  rw [Heap.Traced.free ht, Heap.occupant]
  constructor
  · rintro ⟨slot, hslot, hvacant⟩
    exact ⟨(Array.getElem?_eq_some_iff.1 hslot).1, by simp [hslot, hvacant]⟩
  · rintro ⟨hi, hnone⟩
    rw [Array.getElem?_eq_getElem hi] at hnone
    exact ⟨_, Array.getElem?_eq_getElem hi, hnone⟩

/-! ## Few dealings -/

/-- So many dealings make no more heaps, and no more objects in any of them. -/
structure Within (n : Nat) (e : Estate) : Prop where
  holdings : e.holdings.length ≤ n
  records : ∀ a ∈ e.holdings, a.records.length ≤ n

theorem length_records_perform (a : Holding) (use : HeapUse) :
    (a.perform use).records.length ≤ a.records.length + 1 := by
  cases use with
  | allocate object =>
      simp only [Holding.perform]
      split <;> simp [Holding.add]
  | allocateHost object => simp [Holding.perform, Holding.add]
  | setUp id key value => simp [Holding.perform]
  | write id w =>
      simp only [Holding.perform]
      split <;> simp
  | collect scopes roots opened => simp [Holding.perform]

theorem Within.step {n : Nat} (hw : e.Within n) (d : Dealing) : (e.step d).Within (n + 1) := by
  have hholdings := hw.holdings
  cases d with
  | create limits =>
      refine ⟨by simpa [Estate.step] using hholdings, fun a ha => ?_⟩
      rcases List.mem_append.1 ha with ha | ha
      · exact Nat.le_succ_of_le (hw.records a ha)
      · rw [List.mem_singleton.1 ha]
        exact Nat.zero_le _
  | act k use =>
      refine ⟨by simp [Estate.step]; omega, fun a ha => ?_⟩
      obtain ⟨j, hj⟩ := List.getElem?_of_mem ha
      simp only [Estate.step, List.getElem?_modify] at hj
      obtain ⟨old, hold, rfl⟩ := Option.map_eq_some_iff.1 hj
      have hrecords := hw.records old (List.mem_of_getElem? hold)
      split
      · have := length_records_perform old use
        omega
      · omega

theorem Within.run (dealings : List Dealing) : (run dealings).Within dealings.length := by
  unfold Estate.run
  suffices h : ∀ (e : Estate) (n : Nat), e.Within n →
      (dealings.foldl Estate.step e).Within (n + dealings.length) by
    simpa using h start 0 ⟨Nat.le_refl 0, fun a ha => nomatch ha⟩
  induction dealings with
  | nil => exact fun e n hw => hw
  | cons d rest ih =>
      intro e n hw
      have hrest := ih (e.step d) (n + 1) (hw.step d)
      simp only [List.foldl_cons, List.length_cons]
      rwa [show n + (rest.length + 1) = n + 1 + rest.length by omega]

theorem Within.frees_le {n : Nat} (hw : e.Within n) {a : Holding} (ha : a ∈ e.holdings) (i : Nat) :
    Heap.frees a.records i ≤ n := by
  have hcount : Heap.frees a.records i ≤ (tenants i a.records).length := List.countP_le_length
  have hlength : (tenants i a.records).length ≤ a.records.length := List.length_filter_le _ _
  have := hw.records a ha
  omega

/--
Whatever is done to fewer than 2³² heaps, as long as no place is freed 2³² times: a handle is
owned by the heap that gave it out, until its object is collected, and by no other.
-/
theorem handles_sound (dealings : List Dealing) (hcount : (run dealings).holdings.length < 2 ^ 32)
    (hfrees : ∀ a ∈ (run dealings).holdings, ∀ i, Heap.frees a.records i < 2 ^ 32) :
    (run dealings).Faithful := by
  have ho := Ordered.run dealings
  generalize run dealings = e at ho hcount hfrees ⊢
  have htraced : ∀ a ∈ e.holdings, a.Traced := fun a ha => ho.traced ha
  constructor
  case owns =>
    intro k k' a a' ha ha' r hr
    have hmem := List.mem_of_getElem? ha
    by_cases hk : k' = k
    · subst hk
      obtain rfl := Option.some.inj (ha.symm.trans ha')
      have hfind := (htraced a hmem).find?_eq (hfrees a hmem) hr
      refine ⟨?_, fun o _ hcontent => Heap.object_eq (hfind.trans hcontent)⟩
      simp only [Heap.owns, Heap.isLive, hfind, true_and]
    · have hforeign := ho.find?_of_ne hcount ha ha' hk hr
      refine ⟨?_, fun o hsame => absurd hsame hk⟩
      simp [Heap.owns, Heap.isLive, hforeign, hk]
  case distinct => exact ho.distinct hcount hfrees
  case vacant =>
    intro a ha o baseline
    exact (htraced a ha).occupant_place o baseline
  case nodup => exact fun a ha => (htraced a ha).nodup
  case free => exact fun a ha => mem_free_iff (htraced a ha)
  case live => exact fun a ha => (htraced a ha).live

/-- Two heaps, in the first of which a place is used again. -/
theorem reuse_sound : (run [.create {}, .create {}, .act 0 (.allocate ⟨.ordinary, []⟩),
    .act 0 (.collect .empty [] []), .act 0 (.allocateHost ⟨.array #[.null], []⟩),
    .act 1 (.allocate ⟨.ordinary, []⟩)]).Faithful := by
  have hw := Within.run [.create {}, .create {}, .act 0 (.allocate ⟨.ordinary, []⟩),
    .act 0 (.collect .empty [] []), .act 0 (.allocateHost ⟨.array #[.null], []⟩),
    .act 1 (.allocate ⟨.ordinary, []⟩)]
  exact handles_sound _ (Nat.lt_of_le_of_lt hw.holdings (by decide))
    fun a ha i => Nat.lt_of_le_of_lt (hw.frees_le ha i) (by decide)

end Estate

end ScriptHost

import Mathlib.Algebra.BigOperators.Ring.Finset
import ScriptHost.Proofs.Heap.Estate
import ScriptHost.Proofs.Heap.Ledger

/-!
The slots used are, to the last one, what the objects take beyond what they came with, as long as
scripts use live handles only and leave the objects of the host with what they came with.
-/

namespace ScriptHost

/-- What is charged for the object at a place. -/
def Slot.charged (slot : Slot) : Nat :=
  slot.object.elim 0 fun o => o.slots - slot.baseline

namespace Heap

def charged (h : Heap) : Nat :=
  (h.places.toList.map Slot.charged).sum

/-- No object takes less than it came with. -/
def Covered (h : Heap) : Prop :=
  ∀ slot ∈ h.places, ∀ o ∈ slot.object, slot.baseline ≤ o.slots

instance : DecidablePred Covered := fun h =>
  inferInstanceAs (Decidable (∀ slot ∈ h.places, ∀ o ∈ slot.object, slot.baseline ≤ o.slots))

/-- What the objects take beyond what they came with, which for an uncovered one is negative. -/
def balance (h : Heap) : ℤ :=
  (h.places.toList.map fun slot => slot.object.elim 0 fun o => (o.slots : ℤ) - slot.baseline).sum

/-- The books agree with the objects, and keep to the budget. -/
structure Settled (h : Heap) (budget : Nat) : Prop where
  sound : h.Sound
  used : h.used = h.charged
  maxSlots : h.maxSlots = budget
  fits : budget ≠ 0 → h.used ≤ budget

def baselines (h : Heap) (i : Nat) : Nat :=
  (h.places[i]?.map Slot.baseline).getD 0

variable {h : Heap} {budget : Nat} {id : ObjectId} {o : HeapObject} {w : Write}

theorem Covered.le (hc : h.Covered) {i : Nat} {slot : Slot} (hslot : h.places[i]? = some slot)
    (ho : slot.object = some o) : slot.baseline ≤ o.slots :=
  hc slot (Array.mem_of_getElem? hslot) o ho

theorem Covered.balance_eq (hc : h.Covered) : h.balance = h.charged := by
  rw [balance, charged, Nat.cast_list_sum, List.map_map]
  refine congrArg List.sum (List.map_congr_left fun slot hslot => ?_)
  rw [Function.comp_apply, Slot.charged]
  cases ho : slot.object with
  | none => rfl
  | some o => exact (Int.ofNat_sub (hc slot (Array.mem_def.2 hslot) o ho)).symm

theorem baselines_eq {i : Nat} {slot : Slot} (hslot : h.places[i]? = some slot) :
    h.baselines i = slot.baseline := by
  rw [baselines, hslot]
  rfl

theorem charged_eq_total (h : Heap) : h.charged = h.total h.baselines := by
  rw [charged, sum_map_eq_sum_range, Array.length_toList]
  refine Finset.sum_congr rfl fun i _ => ?_
  rw [Array.getElem?_toList, excess]
  cases hslot : h.places[i]? with
  | none => rfl
  | some slot =>
      rw [baselines_eq hslot]
      rfl

theorem Settled.empty (arena : Nat) (limits : Limits) :
    (Heap.empty arena limits).Settled limits.heapSlots :=
  ⟨.empty arena limits, rfl, rfl, fun _ => Nat.zero_le _⟩

/-! ## Allocation -/

theorem Sound.charged_place (hs : h.Sound) (o : HeapObject) (baseline : Nat) :
    (h.place o baseline).2.charged = h.charged + (o.slots - baseline) := by
  have htotal := hs.total_place h.baselines o baseline baseline
  obtain ⟨generation, -, -, hplaces⟩ := getElem?_place hs o baseline
  rw [charged_eq_total, charged_eq_total, ← htotal]
  congr 1
  funext i
  by_cases hi : i = (h.place o baseline).1.index
  · rw [baselines, hplaces, if_pos hi, hi, Function.update_self]
    rfl
  · rw [baselines, hplaces, if_neg hi, Function.update_of_ne hi]
    rfl

theorem Settled.place (hs : h.Settled budget) (used : Nat) {baseline : Nat}
    (hused : used = h.used + (o.slots - baseline)) (hfits : budget ≠ 0 → used ≤ budget) :
    ({ h with used := used }.place o baseline).2.Settled budget := by
  have hplaced := (hs.sound.place o baseline).sound
  have hcharged := hs.sound.charged_place o baseline
  rw [place_withUsed]
  refine ⟨⟨hplaced.vacant, hplaced.nodup⟩, ?_, (h.alike_place o baseline).maxSlots.trans hs.maxSlots,
    hfits⟩
  change used = (h.place o baseline).2.charged
  rw [hcharged, hused, hs.used]

/-! ## Writes -/

theorem baselines_update (hid : h.find? id = some o) (f : HeapObject → HeapObject) :
    (h.update id f).baselines = h.baselines := by
  funext i
  rw [baselines, baselines, getElem?_update_of_find? hid]
  split
  · rw [Option.map_map]
    rfl
  · rfl

section Write

variable (hs : h.Settled budget) (hc : h.Covered) (hid : h.find? id = some o)
  (hw : w.suits o = true) (hc' : (w.result id h).Covered)
include hs hc hid hw hc'

/-- What a write gives back has been charged, before or by the write itself. -/
theorem Settled.account :
    (w.cost o).2 ≤ h.used + (w.cost o).1 ∧ (w.result id h).used = (w.result id h).charged := by
  obtain ⟨-, slot, hslot, -, hobject⟩ := find?_eq_some.1 hid
  have hnew : (w.result id h).places[id.index]? =
      some { slot with object := slot.object.map w.change } := by
    change (h.update id w.change).places[id.index]? = _
    rw [getElem?_update_of_find? hid, if_pos rfl, hslot, Option.map_some]
  have hbefore := hc.le hslot hobject
  have hafter := hc'.le hnew (o := w.change o) (by rw [hobject]; rfl)
  have hslots := Write.slots_change hw
  have htotal := total_update hid w.change fun j (_ : j ≠ id.index) => Eq.refl (h.baselines j)
  have hcharged : (w.result id h).charged = (h.update id w.change).total h.baselines := by
    rw [charged_eq_total, ← baselines_update hid w.change]
    rfl
  have hused := hs.used
  rw [baselines_eq hslot] at htotal
  rw [charged_eq_total] at hused
  rw [hcharged, Write.result, object_eq hid]
  dsimp only at hafter ⊢
  omega

theorem Settled.write (hfits : (w.cost o).2 < (w.cost o).1 → h.maxSlots ≠ 0 →
    (w.result id h).used ≤ h.maxSlots) : (w.result id h).Settled budget := by
  obtain ⟨-, hused⟩ := hs.account hc hid hw hc'
  have hsound := hs.sound.update hid w.change
  refine ⟨⟨hsound.vacant, hsound.nodup⟩, hused, ?_, ?_⟩
  · rw [Write.result, update_of_find? hid]
    exact hs.maxSlots
  · rw [Write.result, object_eq hid] at hfits ⊢
    exact charge_fits hs.maxSlots hs.fits hfits

end Write

/-! ## Collections -/

/-- Somewhere in a sweep more is taken away than there is. -/
def Overdrawn (h : Heap) (m : Marks) : List Nat → Prop
  | [] => False
  | index :: rest =>
      if m.objects[index]? = some true then h.Overdrawn m rest
      else (∃ slot o, h.places[index]? = some slot ∧ slot.object = some o ∧
          (o.slots < slot.baseline ∨ h.used < o.slots - slot.baseline)) ∨
        (h.freePlace index).Overdrawn m rest

theorem Covered.freePlace (hc : h.Covered) (i : Nat) : (h.freePlace i).Covered := by
  intro slot hslot o ho
  obtain ⟨j, hj⟩ := Array.getElem?_of_mem hslot
  rw [getElem?_freePlace] at hj
  obtain ⟨old, hold, rfl⟩ := Option.map_eq_some_iff.1 hj
  split at ho
  · rw [Slot.object_vacate] at ho
    exact nomatch ho
  · next hne =>
    rw [if_neg hne]
    exact hc.le hold ho

theorem Covered.sweep (hc : h.Covered) (m : Marks) (indexes : List Nat) :
    (h.sweep m indexes).Covered := by
  induction indexes generalizing h with
  | nil => exact hc
  | cons index rest ih =>
      rw [Heap.sweep]
      split
      · exact ih hc
      · exact ih (hc.freePlace index)

theorem Covered.collect (hc : h.Covered) (s : Scopes) (roots : List Value)
    (scopes : List ScopeId) : (h.collect s roots scopes).2.Covered := by
  obtain ⟨m, hcollect, -⟩ := h.collect_swept s roots scopes
  rw [hcollect]
  exact hc.sweep m (List.range h.places.size)

theorem baselines_freePlace (h : Heap) (i : Nat) : (h.freePlace i).baselines = h.baselines := by
  funext j
  rw [baselines, baselines, getElem?_freePlace, Option.map_map]
  congr 2
  funext slot
  simp only [Function.comp_apply]
  split
  · unfold Slot.vacate
    split <;> rfl
  · rfl

theorem Settled.excess_le (hs : h.Settled budget) {i : Nat} {slot : Slot}
    (hslot : h.places[i]? = some slot) (ho : slot.object = some o) :
    o.slots - slot.baseline ≤ h.used := by
  have htotal := h.total_freePlace h.baselines i
  rw [excess_of_place hslot ho, baselines_eq hslot] at htotal
  rw [hs.used, charged_eq_total]
  omega

theorem Settled.freePlace (hs : h.Settled budget) (i : Nat) : (h.freePlace i).Settled budget := by
  have htotal := h.total_freePlace h.baselines i
  rcases h.used_freePlace i with hsame | ⟨slot, o, hslot, ho, hused⟩
  · rw [hsame]
    exact hs
  · rw [excess_of_place hslot ho, baselines_eq hslot, ← charged_eq_total, ← hs.used] at htotal
    refine ⟨hs.sound.freePlace i, ?_, (h.alike_freePlace i).maxSlots.trans hs.maxSlots,
      fun hbudget => ?_⟩
    · rw [charged_eq_total, baselines_freePlace, hused]
      omega
    · have := hs.fits hbudget
      omega

theorem Settled.sweep (hs : h.Settled budget) (hc : h.Covered) (m : Marks) (indexes : List Nat) :
    (h.sweep m indexes).Settled budget ∧ ¬ h.Overdrawn m indexes := by
  induction indexes generalizing h with
  | nil => exact ⟨hs, id⟩
  | cons index rest ih =>
      rw [Heap.sweep, Overdrawn]
      split
      · exact ih hs hc
      · obtain ⟨hrest, hnot⟩ := ih (hs.freePlace index) (hc.freePlace index)
        refine ⟨hrest, fun hover => hover.elim ?_ hnot⟩
        rintro ⟨slot, o, hslot, ho, hless | hless⟩
        · exact Nat.not_lt.2 (hc.le hslot ho) hless
        · exact Nat.not_lt.2 (hs.excess_le hslot ho) hless

theorem Settled.collect (hs : h.Settled budget) (hc : h.Covered) (s : Scopes) (roots : List Value)
    (scopes : List ScopeId) : (h.collect s roots scopes).2.Settled budget := by
  obtain ⟨m, hcollect, -⟩ := h.collect_swept s roots scopes
  obtain ⟨⟨hsound, hused, hmax, hfits⟩, -⟩ := hs.sweep hc m (List.range h.places.size)
  rw [hcollect]
  exact ⟨⟨hsound.vacant, hsound.nodup⟩, hused, hmax, hfits⟩

end Heap

/-! ## Uses -/

namespace HeapUse

/-- Handles are live when they are used, and values are pushed onto arrays only. -/
def Proper (h : Heap) : HeapUse → Prop
  | .allocate _ | .allocateHost _ | .collect .. => True
  | .setUp .. => False
  | .write id w => h.isLive id = true ∧ w.suits (h.object id) = true

/-- More is taken away from the slots used than there is, whatever a collection keeps. -/
def Overdraws (h : Heap) : HeapUse → Prop
  | .allocate _ | .allocateHost _ | .setUp .. => False
  | .write id w => h.used + (w.cost (h.object id)).1 < (w.cost (h.object id)).2
  | .collect .. => ∃ m, h.Overdrawn m (List.range h.places.size)

instance (h : Heap) : DecidablePred (Proper h)
  | .allocate _ | .allocateHost _ | .collect .. => isTrue trivial
  | .setUp .. => isFalse id
  | .write _ _ => inferInstanceAs (Decidable (_ ∧ _))

end HeapUse

namespace Holding

def run (a : Holding) (uses : List HeapUse) : Holding :=
  uses.foldl perform a

/-- No use is improper, and no object is ever left with less than it came with. -/
def Lawful (a : Holding) : List HeapUse → Prop
  | [] => a.heap.Covered
  | use :: rest => a.heap.Covered ∧ use.Proper a.heap ∧ (a.perform use).Lawful rest

variable {a : Holding} {budget : Nat}

theorem Lawful.covered {uses : List HeapUse} (hl : a.Lawful uses) : a.heap.Covered := by
  cases uses with
  | nil => exact hl
  | cons use rest => exact hl.1

theorem settled_perform (hs : a.heap.Settled budget) (hc : a.heap.Covered) {use : HeapUse}
    (huse : use.Proper a.heap) (hc' : (a.perform use).heap.Covered) :
    (a.perform use).heap.Settled budget ∧ ¬ use.Overdraws a.heap := by
  cases use with
  | allocate object =>
      refine ⟨?_, id⟩
      simp only [perform, Heap.allocate, Bind.bind, EStateM.bind]
      rcases Heap.charge_cases object.slots 0 a.heap with hno | ⟨hok, hfits⟩
      · rw [hno]
        exact hs
      · rw [hok]
        exact hs.place (a.heap.used + object.slots - 0) rfl
          (Heap.charge_fits hs.maxSlots hs.fits hfits)
  | allocateHost object => exact ⟨hs.place a.heap.used (by omega) hs.fits, id⟩
  | setUp id key value => exact huse.elim
  | write id w =>
      obtain ⟨hlive, hw⟩ := huse
      obtain ⟨o, hid⟩ := Heap.isLive_iff.1 hlive
      rw [Heap.object_eq hid] at hw
      simp only [perform, HeapUse.Overdraws] at hc' ⊢
      rcases w.step_result id a.heap with hno | ⟨hok, hfits⟩
      · have hgrow := w.grows_of_refused id hno
        rw [hno]
        exact ⟨hs, by omega⟩
      · rw [hok] at hc' ⊢
        obtain ⟨hcost, -⟩ := hs.account hc hid hw hc'
        rw [Heap.object_eq hid] at hfits ⊢
        exact ⟨hs.write hc hid hw hc' hfits, Nat.not_lt.2 hcost⟩
  | collect scopes roots opened =>
      refine ⟨hs.collect hc scopes roots opened, ?_⟩
      rintro ⟨m, hover⟩
      exact (hs.sweep hc m (List.range a.heap.places.size)).2 hover

theorem settled_run (hs : a.heap.Settled budget) {done rest : List HeapUse}
    (hl : a.Lawful (done ++ rest)) :
    (a.run done).heap.Settled budget ∧ ∀ use ∈ rest.head?, ¬ use.Overdraws (a.run done).heap := by
  induction done generalizing a with
  | nil =>
      refine ⟨hs, fun use huse => ?_⟩
      obtain ⟨later, rfl⟩ : ∃ later, rest = use :: later := by
        cases rest with
        | nil => exact nomatch huse
        | cons first later => exact ⟨later, by rw [Option.some.inj huse]⟩
      exact (settled_perform hs hl.1 hl.2.1 hl.2.2.covered).2
  | cons use done ih =>
      exact ih (settled_perform hs hl.1 hl.2.1 hl.2.2.covered).1 hl.2.2

theorem Lawful.left {done rest : List HeapUse} (hl : a.Lawful (done ++ rest)) :
    (a.run done).heap.Covered := by
  induction done generalizing a with
  | nil => exact hl.covered
  | cons use done ih => exact ih hl.2.2

theorem Lawful.collect {uses : List HeapUse} (hl : a.Lawful uses) (scopes : Scopes)
    (roots : List Value) (opened : List ScopeId) :
    a.Lawful (uses ++ [.collect scopes roots opened]) := by
  induction uses generalizing a with
  | nil => exact ⟨hl, trivial, hl.collect scopes roots opened⟩
  | cons use rest ih => exact ⟨hl.1, hl.2.1, ih hl.2.2⟩

instance decidableLawful (a : Holding) : (uses : List HeapUse) → Decidable (a.Lawful uses)
  | [] => inferInstanceAs (Decidable a.heap.Covered)
  | use :: rest =>
      have := decidableLawful (a.perform use) rest
      inferInstanceAs (Decidable (a.heap.Covered ∧ use.Proper a.heap ∧ (a.perform use).Lawful rest))

/--
However a heap is used: after every use the slots used are those that the objects take beyond what
they came with, they are within the budget, and the next use takes no more away than there is.
-/
theorem exact_accounting (arena : Nat) (limits : Limits) (done rest : List HeapUse)
    (hl : Lawful ⟨.empty arena limits, []⟩ (done ++ rest)) :
    let h := (run ⟨.empty arena limits, []⟩ done).heap
    (h.used : ℤ) = h.balance ∧ (h.maxSlots ≠ 0 → h.used ≤ h.maxSlots) ∧
      ∀ use ∈ rest.head?, ¬ use.Overdraws h := by
  intro h
  have hempty : (⟨.empty arena limits, []⟩ : Holding).heap.Settled limits.heapSlots :=
    .empty arena limits
  obtain ⟨hsettled, hnext⟩ := settled_run hempty hl
  refine ⟨?_, fun hmax => ?_, hnext⟩
  · rw [hl.left.balance_eq]
    exact congrArg Nat.cast hsettled.used
  · rw [hsettled.maxSlots] at hmax ⊢
    exact hsettled.fits hmax

/-- A text of the host is cut, an array with a hole is shortened, and one of them is collected. -/
theorem exact_accounting_array :
    let a : Holding := ⟨.empty 1 { heapSlots := 20 }, []⟩
    let host : ObjectId := ⟨1, 0, 0⟩
    let array : ObjectId := ⟨1, 1, 0⟩
    let uses : List HeapUse := [.allocateHost ⟨.array #[.null, .null], []⟩,
      .allocate ⟨.array #[], []⟩, .write host (.property "s" (.string "a text of two slots")),
      .write array (.push [.bool true]), .write array (.element 4 .null), .write array (.resize 3),
      .write array .pop, .write host (.property "s" .null)]
    ((a.run uses).heap.used : ℤ) = (a.run uses).heap.balance ∧
      ((a.run uses).heap.maxSlots ≠ 0 → (a.run uses).heap.used ≤ (a.run uses).heap.maxSlots) ∧
      ∀ use ∈ [HeapUse.collect .empty [.object array] []].head?, ¬ use.Overdraws (a.run uses).heap :=
  exact_accounting 1 { heapSlots := 20 } _ _ (Lawful.collect (by decide +kernel) _ _ _)

end Holding

end ScriptHost

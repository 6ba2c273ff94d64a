import Mathlib.Algebra.BigOperators.Intervals
import Mathlib.Algebra.Order.BigOperators.Group.Finset
import ScriptHost.Proofs.Heap.Ageing
import ScriptHost.Proofs.Heap.Writes

/-!
What is charged to scripts against what their objects take. A script pays for whatever it puts into
an object, and gets back what was there before, whoever paid for it. So the host lends to scripts
all the text in its objects beyond one slot for each value.
-/

namespace ScriptHost

/-- The slots of an object that is charged to a script. -/
def Slot.scriptSlots (slot : Slot) : Nat :=
  if slot.baseline = 0 then slot.object.elim 0 HeapObject.slots else 0

def Heap.scriptSlots (h : Heap) : Nat :=
  (h.places.toList.map Slot.scriptSlots).sum

/-- The budget of a heap, the object that it always keeps, and what the host has lent to scripts. -/
structure Ledger where
  budget : Nat
  kept : Option ObjectId
  credit : Nat

def Ledger.Keeps (l : Ledger) (i : Nat) : Prop :=
  ∃ id, l.kept = some id ∧ id.index = i

/--
How much of what a place holds was for free: nothing of an object of scripts, and no more of one of
the host than it came with. The object that is always kept may get more.
-/
structure Slot.Granted (slot : Slot) (kept : Prop) (n : Nat) : Prop where
  width : ∀ o, slot.object = some o → n ≤ o.width
  gift : ¬ kept → n ≤ slot.baseline
  script : slot.baseline = 0 → n = 0

theorem Slot.Granted.map {slot : Slot} {kept : Prop} {n : Nat} (h : slot.Granted kept n)
    {f : HeapObject → HeapObject} (hf : ∀ o, o.width ≤ (f o).width) :
    { slot with object := slot.object.map f }.Granted kept n := by
  refine ⟨fun o ho => ?_, h.gift, h.script⟩
  obtain ⟨old, hold, rfl⟩ := Option.map_eq_some_iff.1 ho
  exact Nat.le_trans (h.width old hold) (hf old)

theorem Slot.Granted.vacate {slot : Slot} {kept : Prop} {n : Nat} (h : slot.Granted kept n) :
    slot.vacate.Granted kept n := by
  refine ⟨fun o ho => ?_, ?_, ?_⟩
  · rw [slot.object_vacate] at ho
    exact nomatch ho
  · unfold Slot.vacate
    split
    · exact h.gift
    · exact h.gift
  · unfold Slot.vacate
    split
    · exact h.script
    · exact h.script

namespace Heap

variable {h h' : Heap} {l : Ledger} {bare bare' : Nat → Nat} {id : ObjectId} {o : HeapObject}

/-! ## Totals -/

def excess (h : Heap) (bare : Nat → Nat) (i : Nat) : Nat :=
  (h.places[i]?.bind Slot.object).elim 0 fun o => o.slots - bare i

def total (h : Heap) (bare : Nat → Nat) : Nat :=
  ∑ i ∈ Finset.range h.places.size, h.excess bare i

theorem excess_of_vacant {i : Nat} (hi : h.places[i]?.bind Slot.object = none) :
    h.excess bare i = 0 := by
  rw [excess, hi]
  rfl

theorem excess_of_place {i : Nat} {slot : Slot} (hslot : h.places[i]? = some slot)
    (ho : slot.object = some o) : h.excess bare i = o.slots - bare i := by
  rw [excess, hslot, Option.bind_some, ho]
  rfl

theorem excess_congr {i : Nat} (hi : h'.places[i]? = h.places[i]?) :
    h'.excess bare i = h.excess bare i := by
  rw [excess, excess, hi]

theorem total_eq_sum (h : Heap) (bare : Nat → Nat) {n : Nat} (hn : h.places.size ≤ n) :
    h.total bare = ∑ i ∈ Finset.range n, h.excess bare i := by
  refine Finset.sum_subset (Finset.range_subset_range.2 hn) fun i _ hi => excess_of_vacant ?_
  rw [Array.getElem?_eq_none (Nat.le_of_not_lt fun hlt => hi (Finset.mem_range.2 hlt))]
  rfl

theorem total_change (i : Nat)
    (helse : ∀ j, j ≠ i → h'.excess bare' j = h.excess bare j) :
    h'.total bare' + h.excess bare i = h.total bare + h'.excess bare' i := by
  -- both heaps are summed up as far as either reaches, since new places may have been opened
  have hn := Nat.le_max_left (max h.places.size h'.places.size) (i + 1)
  have hi := Nat.le_max_right (max h.places.size h'.places.size) (i + 1)
  generalize max (max h.places.size h'.places.size) (i + 1) = n at hn hi
  rw [h.total_eq_sum bare (Nat.le_trans (Nat.le_max_left _ _) hn),
    h'.total_eq_sum bare' (Nat.le_trans (Nat.le_max_right _ _) hn)]
  have hmem : i ∈ Finset.range n := Finset.mem_range.2 hi
  have hrest : ∑ j ∈ (Finset.range n).erase i, h'.excess bare' j =
      ∑ j ∈ (Finset.range n).erase i, h.excess bare j :=
    Finset.sum_congr rfl fun j hj => helse j (Finset.ne_of_mem_erase hj)
  have hleft := Finset.add_sum_erase (Finset.range n) (h.excess bare) hmem
  have hright := Finset.add_sum_erase (Finset.range n) (h'.excess bare') hmem
  omega

/-! ## Balanced books -/

/--
The objects take no more beyond what was for free (`bare`, place by place) than is charged and lent.
The tombstone came with one slot.
-/
structure Balanced (h : Heap) (l : Ledger) (bare : Nat → Nat) : Prop where
  sound : h.Sound
  kept : ∀ id, l.kept = some id → h.isLive id = true
  places : ∀ (i : Nat) (slot : Slot), h.places[i]? = some slot → slot.Granted (l.Keeps i) (bare i)
  account : h.total bare + h.tombstone.slots ≤ h.used + l.credit + 1
  maxSlots : h.maxSlots = l.budget
  fits : l.budget ≠ 0 → h.used ≤ l.budget

theorem Balanced.empty (arena : Nat) (limits : Limits) :
    (Heap.empty arena limits).Balanced ⟨limits.heapSlots, none, 0⟩ fun _ => 0 where
  sound := .empty arena limits
  kept _ hid := nomatch hid
  places _ _ hslot := nomatch hslot
  account := Nat.le_refl 1
  maxSlots := rfl
  fits _ := Nat.zero_le _

theorem Balanced.credit_mono (hb : h.Balanced l bare) {credit : Nat} (hcredit : l.credit ≤ credit) :
    h.Balanced { l with credit := credit } bare := by
  refine ⟨hb.sound, hb.kept, hb.places, ?_, hb.maxSlots, hb.fits⟩
  have := hb.account
  dsimp only
  omega

/-! ## Writes -/

theorem Balanced.used_fits (hb : h.Balanced l bare) {grow release : Nat}
    (hfits : release < grow → h.maxSlots ≠ 0 → h.used + grow - release ≤ h.maxSlots) :
    l.budget ≠ 0 → h.used + grow - release ≤ l.budget :=
  charge_fits hb.maxSlots hb.fits hfits

theorem isLive_update (h : Heap) (id other : ObjectId) (f : HeapObject → HeapObject) :
    (h.update id f).isLive other = h.isLive other := by
  cases hid : h.find? id with
  | none => rw [update, if_neg (by simp [isLive, hid])]; rfl
  | some o =>
      by_cases hother : other = id
      · subst hother
        rw [isLive, isLive, find?_update hid, hid]
        rfl
      · rw [isLive, isLive, find?_update_of_ne hid f hother]

theorem getElem?_update_of_find? (hid : h.find? id = some o) (f : HeapObject → HeapObject)
    (i : Nat) : (h.update id f).places[i]? =
      if id.index = i then h.places[i]?.map fun slot => { slot with object := slot.object.map f }
      else h.places[i]? := by
  rw [update_of_find? hid, Array.getElem?_modify]

theorem total_update (hid : h.find? id = some o) (f : HeapObject → HeapObject)
    (hbare : ∀ j, j ≠ id.index → bare' j = bare j) :
    (h.update id f).total bare' + (o.slots - bare id.index) =
      h.total bare + ((f o).slots - bare' id.index) := by
  obtain ⟨-, slot, hslot, -, hobject⟩ := find?_eq_some.1 hid
  have hchanged : (h.update id f).places[id.index]? =
      some { slot with object := slot.object.map f } := by
    rw [getElem?_update_of_find? hid, if_pos rfl, hslot, Option.map_some]
  have helse (j : Nat) (hj : j ≠ id.index) : (h.update id f).excess bare' j = h.excess bare j := by
    rw [excess, excess, getElem?_update_of_find? hid, if_neg (Ne.symm hj), hbare j hj]
  have htotal := total_change id.index helse
  have hnew : (Option.map f slot.object) = some (f o) := by rw [hobject, Option.map_some]
  rwa [excess_of_place hslot hobject, excess_of_place hchanged hnew] at htotal

section Write

variable {f : HeapObject → HeapObject} {grow release : Nat} (hb : h.Balanced l bare)
  (hslots : (f (h.object id)).slots + release ≤ (h.object id).slots + grow)
  (hused : l.budget ≠ 0 → h.used + grow - release ≤ l.budget)
include hb hslots hused

theorem Balanced.write_stale (hid : h.find? id = none) :
    { h.update id f with used := h.used + grow - release }.Balanced l bare := by
  have htomb : h.object id = h.tombstone := by simp [object, hid]
  have hupdate : h.update id f = { h with tombstone := f h.tombstone } := by
    rw [update, if_neg (by simp [isLive, hid])]
  have haccount := hb.account
  rw [htomb] at hslots
  rw [hupdate]
  refine ⟨⟨hb.sound.vacant, hb.sound.nodup⟩, hb.kept, hb.places, ?_, hb.maxSlots, hused⟩
  change h.total bare + (f h.tombstone).slots ≤ h.used + grow - release + l.credit + 1
  omega

theorem Balanced.write_live (hid : h.find? id = some o) (hf : ∀ o, o.width ≤ (f o).width) :
    { h.update id f with used := h.used + grow - release }.Balanced l bare := by
  have hsound := hb.sound.update hid f
  have htotal := total_update hid f fun j (_ : j ≠ id.index) => Eq.refl (bare j)
  have hupdate := update_of_find? hid f
  rw [object_eq hid] at hslots
  refine ⟨⟨hsound.vacant, hsound.nodup⟩, fun other hother => ?_, fun i slot hslot => ?_, ?_, ?_,
    hused⟩
  · exact (h.isLive_update id other f).trans (hb.kept other hother)
  · dsimp only at hslot
    rw [getElem?_update_of_find? hid] at hslot
    split at hslot
    · obtain ⟨old, hold, rfl⟩ := Option.map_eq_some_iff.1 hslot
      exact (hb.places i old hold).map hf
    · exact hb.places i slot hslot
  · obtain ⟨-, slot, hslot, -, hobject⟩ := find?_eq_some.1 hid
    have haccount := hb.account
    have hfree := (hb.places id.index slot hslot).width o hobject
    have hwidth := o.width_le_slots
    have hwidth' := Nat.le_trans (hf o) (f o).width_le_slots
    change (h.update id f).total bare + (h.update id f).tombstone.slots ≤
      h.used + grow - release + l.credit + 1
    rw [show (h.update id f).tombstone = h.tombstone by rw [hupdate]]
    omega
  · rw [hupdate]
    exact hb.maxSlots

end Write

theorem Balanced.write {f : HeapObject → HeapObject} {grow release : Nat}
    (hb : h.Balanced l bare) (ha : h.Accounted id f grow release h')
    (hf : ∀ o, o.width ≤ (f o).width) : h'.Balanced l bare := by
  obtain ⟨rfl, hslots, hfits⟩ := ha
  cases hid : h.find? id with
  | none => exact hb.write_stale hslots (hb.used_fits hfits) hid
  | some o => exact hb.write_live hslots (hb.used_fits hfits) hid hf

/-! ## New objects -/

theorem Sound.total_place (hs : h.Sound) (bare : Nat → Nat) (o : HeapObject)
    (baseline n : Nat) :
    (h.place o baseline).2.total (Function.update bare (h.place o baseline).1.index n) =
      h.total bare + (o.slots - n) := by
  obtain ⟨generation, -, hvacant, hplaces⟩ := getElem?_place hs o baseline
  generalize (h.place o baseline).1.index = i, (h.place o baseline).2 = h' at hvacant hplaces ⊢
  have helse (j : Nat) (hj : j ≠ i) :
      h'.excess (Function.update bare i n) j = h.excess bare j := by
    rw [excess, excess, hplaces, if_neg hj, Function.update_of_ne hj]
  have hnew : h'.excess (Function.update bare i n) i = o.slots - n := by
    rw [excess_of_place (by rw [hplaces, if_pos rfl]) rfl, Function.update_self]
  have hold : h.excess bare i = 0 := by
    refine excess_of_vacant ?_
    rcases hvacant with ⟨hnone, -⟩ | ⟨slot, hslot, hobject, -⟩
    · rw [hnone]
      rfl
    · rw [hslot]
      exact hobject
  have htotal := total_change i helse
  omega

theorem Balanced.place (hb : h.Balanced l bare) {used credit baseline n : Nat}
    (hwidth : n ≤ o.width) (hgift : n ≤ baseline) (hscript : baseline = 0 → n = 0)
    (hused : l.budget ≠ 0 → used ≤ l.budget)
    (hcredit : h.used + l.credit + (o.slots - n) ≤ used + credit) :
    ({ h with used := used }.place o baseline).2.Balanced { l with credit := credit }
      (Function.update bare (h.place o baseline).1.index n) := by
  have hplaced := hb.sound.place o baseline
  have halike := h.alike_place o baseline
  have htotal := hb.sound.total_place bare o baseline n
  obtain ⟨generation, -, -, hplaces⟩ := getElem?_place hb.sound o baseline
  rw [place_withUsed]
  generalize (h.place o baseline).1 = new, (h.place o baseline).2 = h' at *
  refine ⟨⟨hplaced.sound.vacant, hplaced.sound.nodup⟩, fun id hid => ?_, fun i slot hslot => ?_,
    ?_, halike.maxSlots.trans hb.maxSlots, hused⟩
  · obtain ⟨p, hp⟩ := isLive_iff.1 (hb.kept id hid)
    have hne : id ≠ new := fun heq => (nomatch (heq ▸ hplaced.stale).symm.trans hp)
    exact isLive_iff.2 ⟨p, (hplaced.elsewhere id hne).trans hp⟩
  · dsimp only at hslot
    rw [hplaces] at hslot
    by_cases hi : i = new.index
    · rw [if_pos hi] at hslot
      obtain rfl := Option.some.inj hslot
      rw [hi, Function.update_self]
      refine ⟨fun p hp => ?_, fun _ => hgift, hscript⟩
      obtain rfl := Option.some.inj hp
      exact hwidth
    · rw [if_neg hi] at hslot
      rw [Function.update_of_ne hi]
      exact hb.places i slot hslot
  · have haccount := hb.account
    change h'.total (Function.update bare new.index n) + h'.tombstone.slots ≤ used + credit + 1
    rw [halike.tombstone]
    omega

theorem Balanced.grant (hb : h.Balanced l bare) (hnone : l.kept = none)
    (hid : h.find? id = some o) (hhost : bare id.index ≠ 0) {f : HeapObject → HeapObject}
    (hlent : (f o).lent ≤ o.slots - bare id.index) :
    (h.update id f).Balanced { l with kept := some id }
      (Function.update bare id.index (f o).width) := by
  obtain ⟨-, slot, hslot, -, hobject⟩ := find?_eq_some.1 hid
  have hnew : Function.update bare id.index (f o).width id.index = (f o).width :=
    Function.update_self ..
  have htotal := total_update hid f fun j hj =>
    Function.update_of_ne hj (f o).width bare
  rw [hnew] at htotal
  have hupdate := update_of_find? hid f
  refine ⟨hb.sound.update hid f, fun other hother => ?_, fun i other hother => ?_, ?_, ?_, ?_⟩
  · obtain rfl := Option.some.inj hother
    exact isLive_iff.2 ⟨f o, find?_update hid f⟩
  · rw [getElem?_update_of_find? hid] at hother
    by_cases hi : id.index = i
    · subst hi
      rw [if_pos rfl, hslot, Option.map_some, hobject, Option.map_some] at hother
      obtain rfl := Option.some.inj hother
      rw [hnew]
      refine ⟨fun p hp => ?_, fun hunkept => absurd ⟨id, rfl, rfl⟩ hunkept, fun hbaseline => ?_⟩
      · obtain rfl := Option.some.inj hp
        exact Nat.le_refl _
      · exact absurd ((hb.places id.index slot hslot).script hbaseline) hhost
    · rw [if_neg hi] at hother
      rw [Function.update_of_ne (Ne.symm hi)]
      obtain ⟨hwidth, hgift, hscript⟩ := hb.places i other hother
      refine ⟨hwidth, fun _ => hgift fun ⟨kept, hkept, _⟩ => ?_, hscript⟩
      exact nomatch hnone.symm.trans hkept
  · have haccount := hb.account
    rw [hupdate] at htotal ⊢
    unfold HeapObject.lent at hlent
    dsimp only at htotal ⊢
    omega
  · rw [hupdate]
    exact hb.maxSlots
  · rw [hupdate]
    exact hb.fits

/-! ## Collections -/

theorem used_freePlace (h : Heap) (i : Nat) :
    h.freePlace i = h ∨ ∃ slot o, h.places[i]? = some slot ∧ slot.object = some o ∧
      (h.freePlace i).used = h.used - (o.slots - slot.baseline) := by
  unfold Heap.freePlace
  split
  · next generation baseline o hslot => exact .inr ⟨_, o, hslot, rfl, rfl⟩
  · exact .inl rfl

theorem total_freePlace (h : Heap) (bare : Nat → Nat) (i : Nat) :
    (h.freePlace i).total bare + h.excess bare i = h.total bare := by
  have hplaces := h.getElem?_freePlace i
  have helse (j : Nat) (hj : j ≠ i) : (h.freePlace i).excess bare j = h.excess bare j :=
    excess_congr (by rw [hplaces]; simp only [if_neg hj, Option.map_id'])
  have hgone : (h.freePlace i).excess bare i = 0 := by
    refine excess_of_vacant ?_
    rw [hplaces]
    simp only [if_true]
    cases h.places[i]? with
    | none => rfl
    | some slot => exact slot.object_vacate
  have htotal := total_change i helse
  omega

theorem Balanced.freePlace (hb : h.Balanced l bare) {i : Nat} (hi : ¬ l.Keeps i) :
    (h.freePlace i).Balanced l bare := by
  rcases h.used_freePlace i with hsame | ⟨slot, o, hslot, ho, hused⟩
  · rw [hsame]
    exact hb
  have halike := h.alike_freePlace i
  have hplaces := h.getElem?_freePlace i
  refine ⟨hb.sound.freePlace i, fun id hid => ?_, fun j other hother => ?_, ?_,
    halike.maxSlots.trans hb.maxSlots, fun hbudget => ?_⟩
  · have hne : id.index ≠ i := fun heq => hi ⟨id, hid, heq⟩
    obtain ⟨p, hp⟩ := isLive_iff.1 (hb.kept id hid)
    refine isLive_iff.2 ⟨p, (find?_congr halike.arena ?_).trans hp⟩
    rw [hplaces]
    simp only [if_neg hne, Option.map_id']
  · rw [hplaces] at hother
    obtain ⟨old, hold, rfl⟩ := Option.map_eq_some_iff.1 hother
    split
    · exact (hb.places j old hold).vacate
    · exact hb.places j old hold
  · -- what is given back is no more than the object took, because no more was for free than it
    -- came with; this is where the kept object has to be left out
    have htotal := h.total_freePlace bare i
    have hgift := (hb.places i slot hslot).gift hi
    have haccount := hb.account
    rw [excess_of_place hslot ho] at htotal
    rw [halike.tombstone, hused]
    omega
  · have := hb.fits hbudget
    omega

theorem Balanced.sweep (hb : h.Balanced l bare) {m : Marks}
    (hm : ∀ i, l.Keeps i → m.objects[i]? = some true) (indexes : List Nat) :
    (h.sweep m indexes).Balanced l bare := by
  induction indexes generalizing h with
  | nil => exact hb
  | cons index rest ih =>
      rw [Heap.sweep]
      split
      · exact ih hb
      · next hunmarked => exact ih (hb.freePlace fun hkeeps => hunmarked (hm index hkeeps))

theorem Balanced.collect (hb : h.Balanced l bare) (s : Scopes) {roots : List Value}
    (scopes : List ScopeId) (hroots : ∀ id, l.kept = some id → .object id ∈ roots) :
    (h.collect s roots scopes).2.Balanced l bare := by
  obtain ⟨m, hcollect, -, hreached, -⟩ := h.collect_swept s roots scopes
  have hmarked (i : Nat) (hi : l.Keeps i) : m.objects[i]? = some true := by
    obtain ⟨id, hid, rfl⟩ := hi
    obtain ⟨o, ho⟩ := isLive_iff.1 (hb.kept id hid)
    exact hreached id (hroots id hid) o ho
  have hswept := hb.sweep hmarked (List.range h.places.size)
  rw [hcollect]
  exact ⟨⟨hswept.sound.vacant, hswept.sound.nodup⟩, hswept.kept, hswept.places, hswept.account,
    hswept.maxSlots, hswept.fits⟩

/-! ## What the books tell -/

theorem sum_map_eq_sum_range (f : Slot → Nat) (slots : List Slot) :
    (slots.map f).sum = ∑ i ∈ Finset.range slots.length, (slots[i]?.map f).getD 0 := by
  induction slots with
  | nil => rfl
  | cons slot rest ih =>
      rw [List.map_cons, List.sum_cons, ih, List.length_cons, Finset.sum_range_succ']
      simp [Nat.add_comm]

theorem Balanced.scriptSlots_le (hb : h.Balanced l bare) : h.scriptSlots ≤ h.used + l.credit := by
  have hle : h.scriptSlots ≤ h.total bare := by
    rw [scriptSlots, sum_map_eq_sum_range, Array.length_toList]
    refine Finset.sum_le_sum fun i hi => ?_
    rw [Array.getElem?_toList]
    cases hslot : h.places[i]? with
    | none => exact Nat.zero_le _
    | some slot =>
        rw [Option.map_some, Option.getD_some]
        unfold Slot.scriptSlots
        split
        · next hbaseline =>
          have hbare := (hb.places i slot hslot).script hbaseline
          cases ho : slot.object with
          | none => exact Nat.zero_le _
          | some o =>
              rw [excess_of_place hslot ho, hbare]
              exact Nat.le_refl _
        · exact Nat.zero_le _
  have htombstone : 1 ≤ h.tombstone.slots := Nat.le_add_right 1 _
  have := hb.account
  omega

/-! ## Solvent heaps -/

def Solvent (h : Heap) (l : Ledger) : Prop :=
  ∃ bare, h.Balanced l bare

theorem Solvent.credit_mono (hs : h.Solvent l) {credit : Nat} (hcredit : l.credit ≤ credit) :
    h.Solvent { l with credit := credit } := by
  obtain ⟨bare, hb⟩ := hs
  exact ⟨bare, hb.credit_mono hcredit⟩

theorem Solvent.allocate (hs : h.Solvent l) (o : HeapObject) :
    (∃ id h', allocate o h = .ok id h' ∧ h'.Solvent l) ∨ allocate o h = .error .memoryLimit h := by
  obtain ⟨bare, hb⟩ := hs
  simp only [Heap.allocate, Bind.bind, EStateM.bind]
  rcases charge_cases o.slots 0 h with hno | ⟨hok, hfits⟩
  · rw [hno]
    exact .inr rfl
  · rw [hok]
    refine .inl ⟨_, _, rfl, _, hb.place (n := 0) (Nat.zero_le _) (Nat.zero_le _) (fun _ => rfl)
      (hb.used_fits hfits) ?_⟩
    omega

theorem Balanced.allocateHost (hb : h.Balanced l bare) (o : HeapObject) :
    (h.allocateHost o).2.Balanced { l with credit := l.credit + o.lent }
      (Function.update bare (h.allocateHost o).1.index o.width) := by
  have hwidth := o.width_le_slots
  refine hb.place (Nat.le_refl _) hwidth (fun hzero => ?_) hb.fits ?_
  · omega
  · unfold HeapObject.lent
    omega

theorem Solvent.allocateHost (hs : h.Solvent l) (o : HeapObject) :
    (h.allocateHost o).2.Solvent { l with credit := l.credit + o.lent } := by
  obtain ⟨bare, hb⟩ := hs
  exact ⟨_, hb.allocateHost o⟩

theorem Solvent.keep (hs : h.Solvent l) (hnone : l.kept = none) (o : HeapObject) (key : String)
    {value : Value} (hvalue : value.slots = 1) :
    ((h.allocateHost o).2.update (h.allocateHost o).1 fun o => o.put key value).Solvent
      { l with kept := some (h.allocateHost o).1, credit := l.credit + o.lent } := by
  obtain ⟨bare, hb⟩ := hs
  have hplaced : h.Placed o (h.allocateHost o).1 (h.allocateHost o).2 := hb.sound.place o o.slots
  have hgranted := hb.allocateHost o
  have hwidth : Function.update bare (h.allocateHost o).1.index o.width
      (h.allocateHost o).1.index = o.width := Function.update_self ..
  refine ⟨_, hgranted.grant hnone hplaced.here ?_ ?_⟩
  · rw [hwidth, HeapObject.width]
    omega
  · rw [hwidth]
    exact o.lent_put_le key hvalue

theorem Solvent.step (hs : h.Solvent l) (w : Write) (id : ObjectId) :
    (∃ h', w.step id h = .ok () h' ∧ h'.Solvent l) ∨ w.step id h = .error .memoryLimit h := by
  obtain ⟨bare, hb⟩ := hs
  rcases w.step_cases id h with hno | ⟨grow, release, h', hok, haccounted⟩
  · exact .inr hno
  · exact .inl ⟨h', hok, bare, hb.write haccounted w.width_le⟩

theorem Solvent.collect (hs : h.Solvent l) (s : Scopes) {roots : List Value}
    (scopes : List ScopeId) (hroots : ∀ id, l.kept = some id → .object id ∈ roots) :
    (h.collect s roots scopes).2.Solvent l := by
  obtain ⟨bare, hb⟩ := hs
  exact ⟨bare, hb.collect s scopes hroots⟩

theorem Solvent.bounded (hs : h.Solvent l) :
    h.scriptSlots ≤ h.used + l.credit ∧ (l.budget ≠ 0 → h.used ≤ l.budget) := by
  obtain ⟨bare, hb⟩ := hs
  exact ⟨hb.scriptSlots_le, hb.fits⟩

end Heap

end ScriptHost

import ScriptHost.Proofs.Heap.Handles

/-!
The accounted writes. Each is refused, or changes one object and the slots used by as much, or by
more.
-/

namespace ScriptHost

/-! ## Slots -/

theorem slotsOf_cons (value : Value) (values : List Value) :
    slotsOf (value :: values) = value.slots + slotsOf values := rfl

theorem slotsOf_append (values values' : List Value) :
    slotsOf (values ++ values') = slotsOf values + slotsOf values' := by
  induction values with
  | nil => simp [slotsOf]
  | cons value rest ih =>
      rw [List.cons_append, slotsOf_cons, slotsOf_cons, ih]
      omega

theorem slotsOf_replicate_undefined (n : Nat) :
    slotsOf (List.replicate n .undefined) = n := by
  induction n with
  | zero => rfl
  | succ n ih =>
      rw [List.replicate_succ, slotsOf_cons, ih]
      simp only [Value.slots]
      omega

theorem slotsOf_set {values : List Value} {i : Nat} {old : Value} (h : values[i]? = some old)
    (value : Value) : slotsOf (values.set i value) + old.slots = slotsOf values + value.slots := by
  induction values generalizing i with
  | nil => simp at h
  | cons first rest ih =>
      cases i with
      | zero =>
          obtain rfl : first = old := by simpa using h
          simp only [List.set_cons_zero, slotsOf_cons]
          omega
      | succ i =>
          have hrest := ih (i := i) (by simpa using h)
          simp only [List.set_cons_succ, slotsOf_cons]
          omega

theorem slotsOf_put (properties : Table Value) (key : String) (value : Value) :
    slotsOf ((properties.put key value).map Prod.snd) + (properties.get? key).elim 0 Value.slots =
      slotsOf (properties.map Prod.snd) + value.slots := by
  induction properties with
  | nil => simp [Table.put, slotsOf]
  | cons first rest ih =>
      obtain ⟨k, old⟩ := first
      by_cases hk : k = key
      · simp only [Table.put, Table.get?, hk, if_true, List.map_cons, slotsOf_cons, Option.elim_some]
        omega
      · simp only [Table.put, Table.get?, hk, if_false, List.map_cons, slotsOf_cons]
        omega

theorem Value.one_le_slots (v : Value) : 1 ≤ v.slots := by
  cases v <;> simp [Value.slots]

theorem length_le_slotsOf (values : List Value) : values.length ≤ slotsOf values := by
  induction values with
  | nil => exact Nat.le_refl 0
  | cons value rest ih =>
      have := value.one_le_slots
      rw [slotsOf_cons, List.length_cons]
      omega

theorem Table.length_put (t : Table Value) (key : String) (value : Value) :
    (t.put key value).length = t.length + (t.get? key).elim 1 fun _ => 0 := by
  induction t with
  | nil => rfl
  | cons first rest ih =>
      obtain ⟨k, old⟩ := first
      by_cases hk : k = key
      · simp [Table.put, Table.get?, hk]
      · simp only [Table.put, Table.get?, hk, if_false, List.length_cons, ih]
        omega

namespace HeapObject

theorem slots_put (o : HeapObject) (key : String) (value : Value) :
    (o.put key value).slots + (o.get? key).elim 0 Value.slots = o.slots + value.slots := by
  have := slotsOf_put o.properties key value
  simp only [slots, values, put, items, get?, slotsOf_append] at this ⊢
  omega

theorem slots_mapItems {o : HeapObject} {items : Array Value} (h : o.items? = some items)
    (f : Array Value → Array Value) :
    (o.mapItems f).slots + slotsOf items.toList = o.slots + slotsOf (f items).toList := by
  obtain ⟨kind, properties⟩ := o
  cases kind <;> simp only [items?, Option.some.injEq, reduceCtorEq] at h
  subst h
  simp only [mapItems, slots, values, HeapObject.items, slotsOf_append]
  omega

theorem mapItems_of_none {o : HeapObject} (h : o.items? = none) (f : Array Value → Array Value) :
    o.mapItems f = o := by
  obtain ⟨kind, properties⟩ := o
  cases kind <;> simp only [items?, reduceCtorEq] at h <;> rfl

theorem mapItems_eq_self {o : HeapObject} {items : Array Value} (h : o.items? = some items)
    {f : Array Value → Array Value} (hf : f items = items) : o.mapItems f = o := by
  obtain ⟨kind, properties⟩ := o
  cases kind <;> simp only [items?, Option.some.injEq, reduceCtorEq] at h
  subst h
  simp only [mapItems, hf]

/-- The slots that an object cannot do without, as properties are never taken away. -/
def width (o : HeapObject) : Nat :=
  1 + o.properties.length

/-- The slots of an object that a script can get back by shortening it. -/
def lent (o : HeapObject) : Nat :=
  o.slots - o.width

theorem width_le_slots (o : HeapObject) : o.width ≤ o.slots := by
  have := length_le_slotsOf (o.properties.map Prod.snd)
  simp only [width, slots, values, slotsOf_append, List.length_map] at this ⊢
  omega

theorem width_put (o : HeapObject) (key : String) (value : Value) :
    (o.put key value).width = o.width + (o.get? key).elim 1 fun _ => 0 := by
  simp only [width, put, get?, Table.length_put]
  omega

@[simp] theorem width_mapItems (o : HeapObject) (f : Array Value → Array Value) :
    (o.mapItems f).width = o.width := by
  obtain ⟨kind, properties⟩ := o
  cases kind <;> rfl

theorem lent_put_le (o : HeapObject) (key : String) {value : Value} (h : value.slots = 1) :
    (o.put key value).lent ≤ o.lent := by
  have hslots := o.slots_put key value
  have hwidth := o.width_put key value
  have := o.width_le_slots
  unfold lent
  cases hold : o.get? key with
  | none =>
      simp only [hold, Option.elim_none] at hslots hwidth
      omega
  | some old =>
      have := old.one_le_slots
      simp only [hold, Option.elim_some] at hslots hwidth
      omega

end HeapObject

namespace Heap

/-- A write by a script that the budget accounts for. -/
inductive Write where
  | property (key : String) (value : Value)
  | element (index : Nat) (value : Value)
  | resize (size : Nat)
  | push (values : List Value)
  | pop

namespace Write

def step (id : ObjectId) : Write → Step Unit
  | property key value => setProperty id key value
  | element index value => setElement id index value
  | resize size => setLength id size
  | push values => do
      let _ ← pushElements id values
      pure ()
  | pop => do
      let _ ← popElement id
      pure ()

/-- What the write makes of the object. -/
def change : Write → HeapObject → HeapObject
  | property key value, o => o.put key value
  | element index value, o =>
      o.mapItems fun items => (padded items (index + 1)).setIfInBounds index value
  | resize size, o => o.mapItems fun items => (padded items size).take size
  | push values, o => o.mapItems fun items => items ++ values
  | pop, o => o.mapItems Array.pop

/-- The slots that the write is charged, and those that it gives back. -/
def cost : Write → HeapObject → Nat × Nat
  | property key value, o => (value.slots, (o.get? key).elim 0 Value.slots)
  | element index value, o => o.items?.elim (0, 0) fun items => elementChange items index value
  | resize size, o => o.items?.elim (0, 0) fun items => lengthChange items size
  | push values, _ => (slotsOf values, 0)
  | pop, o => (0, (o.items?.bind Array.back?).elim 0 Value.slots)

/-- Values pushed onto anything but an array are lost, and charged all the same. -/
def suits : Write → HeapObject → Bool
  | push _, o => o.items?.isSome
  | _, _ => true

theorem width_le (w : Write) (o : HeapObject) : o.width ≤ (w.change o).width := by
  cases w with
  | property key value =>
      rw [change, o.width_put]
      exact Nat.le_add_right _ _
  | _ => exact Nat.le_of_eq (o.width_mapItems _).symm

end Write

variable {h h' : Heap} {id : ObjectId} {o : HeapObject}

theorem charge_cases (grow release : Nat) (h : Heap) :
    charge grow release h = .error .memoryLimit h ∨
      charge grow release h = .ok () { h with used := h.used + grow - release } ∧
        (release < grow → h.maxSlots ≠ 0 → h.used + grow - release ≤ h.maxSlots) := by
  unfold charge
  dsimp only
  split
  · exact .inl rfl
  · next hfits =>
    refine .inr ⟨rfl, fun hgrow hmax => ?_⟩
    simp only [not_and, Nat.not_lt] at hfits
    exact hfits hgrow hmax

theorem charge_fits {budget grow release : Nat} (hmax : h.maxSlots = budget)
    (hused : budget ≠ 0 → h.used ≤ budget)
    (hfits : release < grow → h.maxSlots ≠ 0 → h.used + grow - release ≤ h.maxSlots) :
    budget ≠ 0 → h.used + grow - release ≤ budget := by
  intro hbudget
  have := hused hbudget
  by_cases hgrow : release < grow
  · exact hmax ▸ hfits hgrow (hmax ▸ hbudget)
  · omega

theorem used_update (h : Heap) (id : ObjectId) (f : HeapObject → HeapObject) :
    (h.update id f).used = h.used := by
  unfold update
  split <;> rfl

theorem update_withUsed (h : Heap) (used : Nat) (id : ObjectId) (f : HeapObject → HeapObject) :
    { h with used := used }.update id f = { h.update id f with used := used } := by
  simp only [update]
  have hlive : { h with used := used }.isLive id = h.isLive id := rfl
  rw [hlive]
  split <;> rfl

theorem update_eq_self {f : HeapObject → HeapObject} (hf : f (h.object id) = h.object id) :
    h.update id f = h := by
  cases hid : h.find? id with
  | none =>
      have htomb : h.object id = h.tombstone := by simp [object, hid]
      rw [htomb] at hf
      rw [update, if_neg (by simp [isLive, hid]), hf]
  | some o =>
      rw [object_eq hid] at hf
      obtain ⟨-, slot, hslot, -, hobject⟩ := find?_eq_some.1 hid
      rw [update_of_find? hid]
      have hplaces : (h.places.modify id.index fun slot =>
          { slot with object := slot.object.map f }) = h.places := by
        refine Array.ext_getElem? fun i => ?_
        rw [Array.getElem?_modify]
        by_cases hi : id.index = i
        · subst hi
          rw [if_pos rfl, hslot, Option.map_some, hobject, Option.map_some, hf, ← hobject]
        · rw [if_neg hi]
      rw [hplaces]

/-- A write that was not refused, and what was charged and released for it. -/
structure Accounted (h : Heap) (id : ObjectId) (f : HeapObject → HeapObject) (grow release : Nat)
    (h' : Heap) : Prop where
  result : h' = { h.update id f with used := h.used + grow - release }
  slots : (f (h.object id)).slots + release ≤ (h.object id).slots + grow
  fits : release < grow → h.maxSlots ≠ 0 → h.used + grow - release ≤ h.maxSlots

theorem toList_padded (items : Array Value) (size : Nat) :
    (padded items size).toList =
      items.toList ++ List.replicate (size - items.size) Value.undefined := by
  simp [padded]

theorem slots_element (items : Array Value) (index : Nat) (value : Value) :
    slotsOf ((padded items (index + 1)).setIfInBounds index value).toList +
        (elementChange items index value).2 =
      slotsOf items.toList + (elementChange items index value).1 := by
  rw [Array.toList_setIfInBounds, toList_padded]
  unfold elementChange
  cases hold : items[index]? with
  | some old =>
      have hlt := (Array.getElem?_eq_some_iff.1 hold).1
      have hzero : index + 1 - items.size = 0 := by omega
      rw [hzero, List.replicate_zero, List.append_nil]
      exact slotsOf_set (by simpa using hold) value
  | none =>
      have hge := Array.getElem?_eq_none_iff.1 hold
      have hold : (items.toList ++ List.replicate (index + 1 - items.size) Value.undefined)[index]? =
          some .undefined := by
        rw [List.getElem?_append_right (by simpa using hge)]
        simp only [Array.length_toList, List.getElem?_replicate]
        rw [if_pos (by omega)]
      have hset := slotsOf_set hold value
      rw [slotsOf_append, slotsOf_replicate_undefined] at hset
      simp only [Value.slots] at hset ⊢
      omega

theorem slots_length (items : Array Value) (length : Nat) :
    slotsOf ((padded items length).take length).toList + (lengthChange items length).2 =
      slotsOf items.toList + (lengthChange items length).1 := by
  have htake : ((padded items length).take length).toList =
      (padded items length).toList.take length := by simp
  rw [htake, toList_padded]
  unfold lengthChange
  split
  · next hle =>
    have hzero : length - items.size = 0 := by omega
    have hsplit := slotsOf_append (items.toList.take length) (items.toList.drop length)
    rw [List.take_append_drop] at hsplit
    rw [hzero, List.replicate_zero, List.append_nil]
    dsimp only
    omega
  · next hgt =>
    have hall : (items.toList ++ List.replicate (length - items.size) Value.undefined).take length =
        items.toList ++ List.replicate (length - items.size) Value.undefined := by
      refine List.take_of_length_le ?_
      simp
      omega
    rw [hall, slotsOf_append, slotsOf_replicate_undefined]
    rfl

theorem slots_pop {o : HeapObject} {last : Value} (h : o.items?.bind Array.back? = some last) :
    (o.mapItems Array.pop).slots + last.slots = o.slots := by
  obtain ⟨items, hitems, hlast⟩ := Option.bind_eq_some_iff.1 h
  have hslots := HeapObject.slots_mapItems hitems Array.pop
  have hsplit : items.toList = items.pop.toList ++ [last] := by
    rw [Array.toList_pop]
    refine (List.dropLast_append_getLast? last ?_).symm
    simpa using hlast
  have hone : slotsOf [last] = last.slots := rfl
  rw [hsplit, slotsOf_append, hone] at hslots
  omega

theorem mapItems_pop {o : HeapObject} (h : o.items?.bind Array.back? = none) :
    o.mapItems Array.pop = o := by
  cases hitems : o.items? with
  | none => exact HeapObject.mapItems_of_none hitems _
  | some items =>
      refine HeapObject.mapItems_eq_self hitems ?_
      rw [hitems, Option.bind_some, Array.back?_eq_none_iff] at h
      rw [h]
      rfl

theorem charge_free (h : Heap) : charge 0 0 h = .ok () h := rfl

theorem bind_get {α : Type} (f : Heap → Step α) (h : Heap) : (get >>= f : Step α) h = f h h :=
  rfl

theorem step_unchanged {s : Step Unit} {f : HeapObject → HeapObject} (hs : s h = .ok () h)
    (hf : f (h.object id) = h.object id) :
    s h = (do charge 0 0; modify fun h => h.update id f : Step Unit) h := by
  simp only [Bind.bind, EStateM.bind, charge_free, hs]
  change _ = EStateM.Result.ok () (h.update id f)
  rw [update_eq_self hf]

namespace Write

theorem slots_change {w : Write} {o : HeapObject} (hw : w.suits o = true) :
    (w.change o).slots + (w.cost o).2 = o.slots + (w.cost o).1 := by
  cases w with
  | property key value => exact o.slots_put key value
  | pop =>
      cases hlast : o.items?.bind Array.back? with
      | none => rw [change, cost, mapItems_pop hlast, hlast]; rfl
      | some last =>
          have := slots_pop hlast
          simp only [change, cost, hlast, Option.elim_some]
          omega
  | element index value =>
      cases hitems : o.items? with
      | none => rw [change, cost, HeapObject.mapItems_of_none hitems, hitems]; rfl
      | some items =>
          have hslots := HeapObject.slots_mapItems hitems fun items =>
            (padded items (index + 1)).setIfInBounds index value
          have := slots_element items index value
          simp only [change, cost, hitems, Option.elim_some]
          omega
  | resize size =>
      cases hitems : o.items? with
      | none => rw [change, cost, HeapObject.mapItems_of_none hitems, hitems]; rfl
      | some items =>
          have hslots := HeapObject.slots_mapItems hitems fun items =>
            (padded items size).take size
          have := slots_length items size
          simp only [change, cost, hitems, Option.elim_some]
          omega
  | push values =>
      obtain ⟨items, hitems⟩ := Option.isSome_iff_exists.1 hw
      have hslots := HeapObject.slots_mapItems hitems fun items => items ++ values
      rw [Array.toList_appendList, slotsOf_append] at hslots
      simp only [change, cost]
      omega

theorem slots_change_le (w : Write) (o : HeapObject) :
    (w.change o).slots + (w.cost o).2 ≤ o.slots + (w.cost o).1 := by
  by_cases hw : w.suits o = true
  · exact Nat.le_of_eq (slots_change hw)
  · -- nothing is pushed then, but the values are charged all the same
    cases w with
    | push values =>
        rw [change, HeapObject.mapItems_of_none (by simpa [suits] using hw)]
        exact Nat.add_le_add_left (Nat.zero_le _) _
    | _ => exact absurd rfl hw

/-- The charge comes before the change. -/
theorem step_eq (w : Write) (id : ObjectId) (h : Heap) :
    w.step id h = (do
      charge (w.cost (h.object id)).1 (w.cost (h.object id)).2
      modify fun h => h.update id w.change : Step Unit) h := by
  cases w with
  | property key value => rfl
  | element index value =>
      cases hitems : (h.object id).items? with
      | none =>
          rw [cost, hitems]
          refine step_unchanged ?_ (HeapObject.mapItems_of_none hitems _)
          simp only [step, setElement, bind_get, hitems]
          rfl
      | some items =>
          simp only [cost, step, setElement, bind_get, hitems]
          rfl
  | resize size =>
      cases hitems : (h.object id).items? with
      | none =>
          rw [cost, hitems]
          refine step_unchanged ?_ (HeapObject.mapItems_of_none hitems _)
          simp only [step, setLength, bind_get, hitems]
          rfl
      | some items =>
          simp only [cost, step, setLength, bind_get, hitems]
          rfl
  | push values =>
      simp only [cost, step, pushElements, Bind.bind, EStateM.bind]
      cases charge (slotsOf values) 0 h <;> rfl
  | pop =>
      cases hlast : (h.object id).items?.bind Array.back? with
      | none =>
          rw [cost, hlast]
          refine step_unchanged ?_ (mapItems_pop hlast)
          have hpop : popElement id h = .ok .undefined h := by
            simp only [popElement, bind_get, hlast]
            rfl
          simp only [step, Bind.bind, EStateM.bind, hpop]
          rfl
      | some last =>
          -- a pop is the only write that is charged for, or rather paid back, when it is done
          have hfree : charge 0 last.slots h = .ok () { h with used := h.used - last.slots } := rfl
          have hpop : popElement id h = .ok last { h.update id Write.pop.change with
              used := (h.update id Write.pop.change).used - last.slots } := by
            simp only [popElement, bind_get, hlast]
            rfl
          simp only [cost, step, hlast, Option.elim_some, Bind.bind, EStateM.bind, hpop, hfree]
          change EStateM.Result.ok () _ =
            .ok () ({ h with used := h.used - last.slots }.update id Write.pop.change)
          rw [used_update, update_withUsed h (h.used - last.slots)]

/-- The heap once the write has been made and charged. -/
def result (w : Write) (id : ObjectId) (h : Heap) : Heap :=
  { h.update id w.change with
    used := h.used + (w.cost (h.object id)).1 - (w.cost (h.object id)).2 }

theorem step_result (w : Write) (id : ObjectId) (h : Heap) :
    w.step id h = .error .memoryLimit h ∨ w.step id h = .ok () (w.result id h) ∧
      ((w.cost (h.object id)).2 < (w.cost (h.object id)).1 → h.maxSlots ≠ 0 →
        (w.result id h).used ≤ h.maxSlots) := by
  rw [w.step_eq id h]
  rcases charge_cases (w.cost (h.object id)).1 (w.cost (h.object id)).2 h with hno | ⟨hok, hfits⟩
  · exact .inl (by simp only [Bind.bind, EStateM.bind, hno])
  · refine .inr ⟨?_, hfits⟩
    simp only [Bind.bind, EStateM.bind, hok]
    exact congrArg (EStateM.Result.ok ()) (update_withUsed h _ id w.change)

theorem grows_of_refused {reason : TerminationReason} (w : Write) (id : ObjectId)
    (hno : w.step id h = .error reason h') : (w.cost (h.object id)).2 < (w.cost (h.object id)).1 := by
  rw [w.step_eq id h] at hno
  simp only [Bind.bind, EStateM.bind, charge] at hno
  by_contra hgrow
  rw [if_neg fun hall => hgrow hall.1] at hno
  exact nomatch hno

theorem step_cases (w : Write) (id : ObjectId) (h : Heap) :
    w.step id h = .error .memoryLimit h ∨ ∃ grow release h', w.step id h = .ok () h' ∧
      h.Accounted id w.change grow release h' := by
  rcases w.step_result id h with hno | ⟨hok, hfits⟩
  · exact .inl hno
  · exact .inr ⟨_, _, _, hok, rfl, w.slots_change_le _, hfits⟩

end Write

/-! ## New objects -/

theorem place_withUsed (h : Heap) (used : Nat) (o : HeapObject) (baseline : Nat) :
    { h with used := used }.place o baseline =
      ((h.place o baseline).1, { (h.place o baseline).2 with used := used }) := by
  unfold place
  dsimp only
  split <;> rfl

/-- Memory runs out, or there is a new object and all others are as they were. -/
theorem Sound.allocate_cases (hs : h.Sound) (o : HeapObject) :
    allocate o h = .error .memoryLimit h ∨
      ∃ id h', allocate o h = .ok id h' ∧ h.Placed o id h' ∧ h.Alike h' := by
  rcases charge_cases o.slots 0 h with hno | ⟨hok, -⟩
  · exact .inl (by simp only [allocate, Bind.bind, EStateM.bind, hno])
  · have hplaced := hs.place o 0
    have halike := h.alike_place o 0
    refine .inr ⟨(h.place o 0).1, { (h.place o 0).2 with used := h.used + o.slots - 0 }, ?_,
      ⟨⟨hplaced.sound.vacant, hplaced.sound.nodup⟩, hplaced.stale, hplaced.here,
        hplaced.elsewhere⟩,
      ⟨halike.arena, halike.maxSlots, halike.maxString, halike.tombstone⟩⟩
    simp only [allocate, Bind.bind, EStateM.bind, hok]
    exact congrArg (fun p => EStateM.Result.ok p.1 p.2) (place_withUsed h _ o 0)

theorem Placed.keeps {k : Heap} {p : HeapObject} {other : ObjectId} (hk : h.Placed o id k)
    (hother : h.find? other = some p) : k.find? other = some p :=
  (hk.elsewhere other fun heq => nomatch (heq ▸ hk.stale).symm.trans hother).trans hother

theorem bind_eq_ok {α β : Type} {x : Step α} {f : α → Step β} {b : β} {k : Heap}
    (hok : (x >>= f) h = .ok b k) : ∃ a h', x h = .ok a h' ∧ f a h' = .ok b k := by
  simp only [Bind.bind, EStateM.bind] at hok
  cases hx : x h with
  | ok a h' => exact ⟨a, h', rfl, by rwa [hx] at hok⟩
  | error => exact nomatch hx ▸ hok

theorem Sound.placed_of_allocate {k : Heap} (hs : h.Sound) (hok : allocate o h = .ok id k) :
    h.Placed o id k := by
  rcases hs.allocate_cases o with hno | ⟨id', k', hok', hplaced, -⟩
  · exact nomatch hno.symm.trans hok
  · obtain ⟨rfl, rfl⟩ := EStateM.Result.ok.inj (hok.symm.trans hok')
    exact hplaced

/-- An object has changed and no other handle leads elsewhere. -/
structure Changed (h : Heap) (id : ObjectId) (o : HeapObject) (h' : Heap) : Prop where
  sound : h'.Sound
  here : h'.find? id = some o
  elsewhere : ∀ other, other ≠ id → h'.find? other = h.find? other

theorem Sound.step_cases (hs : h.Sound) (hid : h.find? id = some o) (w : Write) :
    w.step id h = .error .memoryLimit h ∨
      ∃ h', w.step id h = .ok () h' ∧ h.Changed id (w.change o) h' ∧ h.Alike h' := by
  rcases w.step_cases id h with hno | ⟨grow, release, h', hok, haccounted⟩
  · exact .inl hno
  · have hsound := hs.update hid w.change
    refine .inr ⟨h', hok, ?_, ?_⟩
    · rw [haccounted.result]
      exact ⟨⟨hsound.vacant, hsound.nodup⟩, find?_update hid w.change,
        fun _ => find?_update_of_ne hid w.change⟩
    · rw [haccounted.result, update_of_find? hid]
      exact ⟨rfl, rfl, rfl, rfl⟩

end Heap

end ScriptHost

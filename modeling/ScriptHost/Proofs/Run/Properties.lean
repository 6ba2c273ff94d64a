import ScriptHost.Proofs.Coupling.Law

/-!
Properties are read as they were written. A write changes what is read at one place of one object,
and a write that is refused changes nothing.
-/

namespace ScriptHost

/-- Where an object keeps a property: an array has a length, elements, and names besides. -/
inductive Site where
  | length
  | element (index : Nat)
  | name (key : String)
  deriving DecidableEq

namespace HeapObject

variable {o : HeapObject} {items : Array Value}

def site (o : HeapObject) (key : String) : Site :=
  match o.items? with
  | none => .name key
  | some _ =>
      if key = "length" then .length
      else
        match Number.readPosition? key with
        | some index => .element index
        | none => .name key

def held (o : HeapObject) : Site → Value
  | .length => .number (Float.ofNat o.items.length)
  | .element index => o.items[index]?.getD .undefined
  | .name key => (o.get? key).getD .undefined

theorem items_of_items? (h : o.items? = some items) : o.items = items.toList := by
  obtain ⟨kind, properties⟩ := o
  cases kind with
  | array held =>
    obtain rfl := Option.some.inj h
    rfl
  | _ => exact nomatch h

theorem propertyOf_eq (o : HeapObject) (key : String) :
    Heap.propertyOf o key = o.held (o.site key) := by
  unfold Heap.propertyOf site
  cases hitems : o.items? with
  | none => rfl
  | some items =>
    dsimp only
    split
    · rw [held, items_of_items? hitems, Array.length_toList]
    · cases Number.readPosition? key with
      | none => rfl
      | some index =>
        dsimp only
        rw [held, items_of_items? hitems, Array.getElem?_toList]

/-- Only arrays keep properties elsewhere than under their names. -/
theorem items?_of_site {key : String} (h : ∀ name, o.site key ≠ .name name) :
    ∃ items, o.items? = some items := by
  cases hitems : o.items? with
  | none => exact absurd (by rw [site, hitems]) (h key)
  | some items => exact ⟨items, rfl⟩

/-! ## What a write makes of what is held -/

theorem items?_mapItems (o : HeapObject) (f : Array Value → Array Value) :
    (o.mapItems f).items? = o.items?.map f := by
  obtain ⟨kind, properties⟩ := o
  cases kind <;> rfl

theorem get?_mapItems (o : HeapObject) (f : Array Value → Array Value) (key : String) :
    (o.mapItems f).get? key = o.get? key := by
  obtain ⟨kind, properties⟩ := o
  cases kind <;> rfl

theorem site_mapItems (o : HeapObject) (f : Array Value → Array Value) :
    (o.mapItems f).site = o.site := by
  funext key
  unfold site
  rw [items?_mapItems]
  cases o.items? <;> rfl

theorem held_put (o : HeapObject) (key : String) (value : Value) (site : Site) :
    (o.put key value).held site = if site = .name key then value else o.held site := by
  cases site with
  | length | element => rfl
  | name other =>
    simp only [held, get?, put, Table.get?_put, Site.name.injEq]
    by_cases hkey : key = other
    · rw [if_pos hkey, if_pos hkey.symm, Option.getD_some]
    · rw [if_neg hkey, if_neg (Ne.symm hkey)]

theorem getD_padded (values : List Value) (more index : Nat) :
    (values ++ List.replicate more Value.undefined)[index]?.getD .undefined =
      values[index]?.getD .undefined := by
  by_cases hlt : index < values.length
  · rw [List.getElem?_append_left hlt]
  · rw [List.getElem?_append_right (Nat.le_of_not_lt hlt), List.getElem?_replicate,
      List.getElem?_eq_none (Nat.le_of_not_lt hlt)]
    split <;> rfl

section Arrays

variable (h : o.items? = some items)

include h

theorem items_mapItems (f : Array Value → Array Value) : (o.mapItems f).items = (f items).toList :=
  items_of_items? (by rw [items?_mapItems, h, Option.map_some])

theorem items_element (index : Nat) (value : Value) :
    ((Heap.Write.element index value).change o).items =
      (o.items ++ List.replicate (index + 1 - o.items.length) Value.undefined).set index value := by
  rw [Heap.Write.change, items_mapItems h, items_of_items? h, Array.toList_setIfInBounds,
    Heap.toList_padded, Array.length_toList]

theorem items_resize (length : Nat) :
    ((Heap.Write.resize length).change o).items =
      (o.items ++ List.replicate (length - o.items.length) Value.undefined).take length := by
  have htake : ((Heap.padded items length).take length).toList =
      (Heap.padded items length).toList.take length := by simp
  rw [Heap.Write.change, items_mapItems h, items_of_items? h, htake, Heap.toList_padded,
    Array.length_toList]

theorem length_element (index : Nat) (value : Value) :
    ((Heap.Write.element index value).change o).items.length =
      max o.items.length (index + 1) := by
  rw [items_element h, List.length_set, List.length_append, List.length_replicate]
  omega

theorem length_resize (length : Nat) :
    ((Heap.Write.resize length).change o).items.length = length := by
  rw [items_resize h, List.length_take, List.length_append, List.length_replicate]
  omega

theorem held_element (index other : Nat) (value : Value) :
    ((Heap.Write.element index value).change o).held (.element other) =
      if other = index then value else o.held (.element other) := by
  rw [held, items_element h]
  by_cases hother : other = index
  · subst hother
    rw [if_pos rfl, List.getElem?_set_self, Option.getD_some]
    rw [List.length_append, List.length_replicate]
    omega
  · rw [if_neg hother, List.getElem?_set_ne (Ne.symm hother), getD_padded, held]

theorem held_resize (length index : Nat) :
    ((Heap.Write.resize length).change o).held (.element index) =
      if index < min o.items.length length then o.held (.element index) else .undefined := by
  rw [held, items_resize h, List.getElem?_take]
  by_cases hlt : index < length
  · rw [if_pos hlt, getD_padded]
    split
    · rfl
    · rw [List.getElem?_eq_none (by omega), Option.getD_none]
  · rw [if_neg hlt, if_neg (by omega), Option.getD_none]

end Arrays

end HeapObject

/-! ## Writes -/

namespace Heap

variable {h : Heap} {id : ObjectId} {o : HeapObject}

/-- The write that a property is written by, unless an array would become too long. -/
def writeAt? (o : HeapObject) (length? : Option Nat) (value : Value) : Site → Option Write
  | .length =>
      match length? with
      | some length =>
          if length ≤ o.items.length + maxGrowth then some (.resize length) else none
      | none => none
  | .element index =>
      if index < o.items.length + maxGrowth then some (.element index value) else none
  | .name key => some (.property key value)

theorem writeProperty_eq (hid : h.find? id = some o) (key : String) (value : Value) :
    writeProperty id key value h =
      match writeAt? o (Number.position? (h.toNumber value)) value (o.site key) with
      | some w => (do w.step id; pure true : Step Bool) h
      | none => .ok false h := by
  unfold writeProperty HeapObject.site
  rw [bind_get, object_eq hid]
  cases hitems : o.items? with
  | none => rfl
  | some items =>
    have hlength : o.items.length = items.size := by
      rw [HeapObject.items_of_items? hitems, Array.length_toList]
    dsimp only
    split
    · simp only [writeAt?, hlength]
      cases Number.position? (h.toNumber value) with
      | none => rfl
      | some length =>
        dsimp only
        split <;> rfl
    · cases Number.readPosition? key with
      | none => rfl
      | some index =>
        simp only [writeAt?, hlength]
        split <;> rfl

end Heap

namespace Run

variable {s : Setting} {m n : Machine} {id : ObjectId} {o : HeapObject} {key : String}
  {value : Value}

/-- The property of an object reads as the value given. -/
def Reads (s : Setting) (m : Machine) (id : ObjectId) (key : String) (value : Value) : Prop :=
  getProperty (.object id) key s m = .ok value m

theorem reads_iff : Reads s m id key value ↔
    value = (m.heap.object id).held ((m.heap.object id).site key) := by
  have hread : getProperty (.object id) key s m =
      .ok ((m.heap.object id).held ((m.heap.object id).site key)) m := by
    rw [← HeapObject.propertyOf_eq]
    rfl
  rw [Reads, hread, EStateM.Result.ok.injEq, and_iff_left rfl, eq_comm]

theorem reads_congr {k : String} (h : m.heap.object id = n.heap.object id) :
    Reads s n id k value ↔ Reads s m id k value := by
  rw [reads_iff, reads_iff, h]

/-- What is read once a property has been written. -/
structure Written (s : Setting) (m n : Machine) (id : ObjectId) (o : HeapObject) (key : String)
    (value : Value) : Prop where
  here : o.site key ≠ .length → ∀ k, o.site k = o.site key → Reads s n id k value
  length : o.site key = .length → ∃ length,
    Number.position? (m.heap.toNumber value) = some length ∧
      Reads s n id key (.number (Float.ofNat length)) ∧
      ∀ k index, o.site k = .element index →
        if index < min o.items.length length then ∀ v, Reads s n id k v ↔ Reads s m id k v
        else Reads s n id k .undefined
  elsewhere : ∀ k, o.site k ≠ o.site key →
    (o.site key = .length → ∃ name, o.site k = .name name) →
    (o.site k = .length → ∀ index, o.site key = .element index → index < o.items.length) →
      ∀ v, Reads s n id k v ↔ Reads s m id k v
  others : ∀ other, other ≠ id → ∀ k v, Reads s n other k v ↔ Reads s m other k v
  growth : (n.heap.object id).items.length ≤ o.items.length + 65536

/-- What there was before is as it was, to whoever reads it. -/
def Untouched (s : Setting) (m n : Machine) : Prop :=
  ∀ id, m.heap.isLive id = true → (∀ k v, Reads s n id k v ↔ Reads s m id k v) ∧
    (n.heap.object id).items = (m.heap.object id).items

theorem Untouched.of_find? (h : ∀ id o, m.heap.find? id = some o → n.heap.find? id = some o) :
    Untouched s m n := by
  intro id hlive
  obtain ⟨o, ho⟩ := Heap.isLive_iff.1 hlive
  have hsame : m.heap.object id = n.heap.object id :=
    (Heap.object_eq ho).trans (Heap.object_eq (h id o ho)).symm
  exact ⟨fun _ _ => reads_congr hsame, by rw [hsame]⟩

theorem complain_untouched (hs : m.heap.Sound) (complaint : Complaint) :
    ∃ e n, (complain complaint : Run Unit) s m = .error e n ∧
      ((∃ v, e = .thrown v) ∨ e = .terminated .memoryLimit) ∧ Untouched s m n := by
  rw [complain_eq, Heap.allocateError]
  simp only [Functor.map, EStateM.map]
  rcases hs.allocate_cases (Heap.errorObject complaint.kind complaint.message) with
    hno | ⟨made, h', hok, hplaced, -⟩
  · rw [hno]
    exact ⟨_, _, rfl, .inr rfl, .of_find? fun _ _ ho => ho⟩
  · rw [hok]
    exact ⟨_, _, rfl, .inl ⟨_, rfl⟩, .of_find? fun _ _ => hplaced.keeps⟩

/-- A write at a site is carried out, or there is no room for what it takes. -/
theorem setProperty_write (hs : m.heap.Sound) (hid : m.heap.find? id = some o) {w : Heap.Write}
    (hw : Heap.writeAt? o (Number.position? (m.heap.toNumber value)) value (o.site key) = some w) :
    setProperty (.object id) key value s m =
        .error (.terminated .memoryLimit) (m.halt .memoryLimit) ∨
      ∃ h', setProperty (.object id) key value s m = .ok () { m with heap := h' } ∧
        m.heap.Changed id (w.change o) h' ∧ m.heap.Alike h' := by
  have hstep := Heap.writeProperty_eq hid key value
  rw [hw] at hstep
  simp only [setProperty, Bind.bind, ReaderT.bind, EStateM.bind, onHeap] at hstep ⊢
  rcases hs.step_cases hid w with hno | ⟨h', hok, hchanged⟩
  · left
    rw [hstep, hno]
  · right
    refine ⟨h', ?_, hchanged⟩
    rw [hstep, hok]
    rfl

theorem setProperty_refused (hid : m.heap.find? id = some o)
    (hw : Heap.writeAt? o (Number.position? (m.heap.toNumber value)) value (o.site key) = none) :
    setProperty (.object id) key value s m = complain .arrayLength s m := by
  have hstep := Heap.writeProperty_eq hid key value
  rw [hw] at hstep
  simp only [setProperty, Bind.bind, ReaderT.bind, EStateM.bind, onHeap, hstep]
  rfl

/-! ## Reading after the write -/

theorem site_change (w : Heap.Write) (o : HeapObject) : (w.change o).site = o.site := by
  cases w with
  | property => rfl
  | _ => exact o.site_mapItems _

section Changed

variable {w : Heap.Write} (hid : m.heap.find? id = some o)
  (hchanged : m.heap.Changed id (w.change o) n.heap)

include hid in
theorem reads_before (k : String) (v : Value) : Reads s m id k v ↔ v = o.held (o.site k) := by
  rw [reads_iff, Heap.object_eq hid]

include hchanged in
theorem reads_after (k : String) (v : Value) :
    Reads s n id k v ↔ v = (w.change o).held (o.site k) := by
  rw [reads_iff, Heap.object_eq hchanged.here, site_change]

include hid hchanged in
theorem reads_kept {k : String} (h : (w.change o).held (o.site k) = o.held (o.site k))
    (v : Value) : Reads s n id k v ↔ Reads s m id k v := by
  rw [reads_before hid, reads_after hchanged, h]

include hchanged in
theorem reads_others (halike : m.heap.Alike n.heap) {other : ObjectId} (hother : other ≠ id)
    (k : String) (v : Value) : Reads s n other k v ↔ Reads s m other k v := by
  refine reads_congr ?_
  rw [Heap.object, Heap.object, hchanged.elsewhere other hother, halike.tombstone]

end Changed

section Sites

variable (hid : m.heap.find? id = some o) (halike : m.heap.Alike n.heap)

include hid halike

theorem written_name {name : String} (hsite : o.site key = .name name)
    (hchanged : m.heap.Changed id ((Heap.Write.property name value).change o) n.heap) :
    Written s m n id o key value := by
  refine ⟨fun _ k hk => ?_, fun hlength => absurd (hsite.symm.trans hlength) nofun,
    fun k hk _ _ => ?_, fun _ => reads_others hchanged halike, ?_⟩
  · rw [reads_after hchanged, hk, hsite, Heap.Write.change, HeapObject.held_put, if_pos rfl]
  · refine reads_kept hid hchanged ?_
    rw [Heap.Write.change, HeapObject.held_put, if_neg (hsite ▸ hk)]
  · rw [Heap.object_eq hchanged.here]
    exact Nat.le_add_right _ _

theorem written_element {index : Nat} (hsite : o.site key = .element index)
    (hroom : index < o.items.length + Heap.maxGrowth)
    (hchanged : m.heap.Changed id ((Heap.Write.element index value).change o) n.heap) :
    Written s m n id o key value := by
  obtain ⟨items, hitems⟩ : ∃ items, o.items? = some items :=
    o.items?_of_site fun name hname => nomatch hsite.symm.trans hname
  refine ⟨fun _ k hk => ?_, fun hlength => absurd (hsite.symm.trans hlength) nofun,
    fun k hk _ hinside => ?_, fun _ => reads_others hchanged halike, ?_⟩
  · rw [reads_after hchanged, hk, hsite, HeapObject.held_element hitems, if_pos rfl]
  · refine reads_kept hid hchanged ?_
    cases hother : o.site k with
    | name other => exact congrArg (Option.getD · _) (o.get?_mapItems _ other)
    | element other =>
      rw [HeapObject.held_element hitems, if_neg fun heq => hk (by rw [hother, hsite, heq])]
    | length =>
      have := hinside hother index hsite
      rw [HeapObject.held, HeapObject.held, HeapObject.length_element hitems,
        Nat.max_eq_left (by omega)]
  · rw [Heap.object_eq hchanged.here, HeapObject.length_element hitems]
    have : Heap.maxGrowth = 65536 := rfl
    omega

theorem written_length {length : Nat} (hsite : o.site key = .length)
    (hlength : Number.position? (m.heap.toNumber value) = some length)
    (hroom : length ≤ o.items.length + Heap.maxGrowth)
    (hchanged : m.heap.Changed id ((Heap.Write.resize length).change o) n.heap) :
    Written s m n id o key value := by
  obtain ⟨items, hitems⟩ : ∃ items, o.items? = some items :=
    o.items?_of_site fun name hname => nomatch hsite.symm.trans hname
  refine ⟨fun hno => absurd hsite hno, fun _ => ⟨length, hlength, ?_, fun k index hk => ?_⟩,
    fun k _ hname _ => ?_, fun _ => reads_others hchanged halike, ?_⟩
  · rw [reads_after hchanged, hsite, HeapObject.held, HeapObject.length_resize hitems]
  · have hheld := HeapObject.held_resize hitems length index
    split
    · next hlt =>
      rw [if_pos hlt, ← hk] at hheld
      exact reads_kept hid hchanged hheld
    · next hge =>
      rw [if_neg hge] at hheld
      rw [reads_after hchanged, hk, hheld]
  · obtain ⟨name, hk⟩ := hname hsite
    refine reads_kept hid hchanged ?_
    rw [hk]
    exact congrArg (Option.getD · _) (o.get?_mapItems _ name)
  · rw [Heap.object_eq hchanged.here, HeapObject.length_resize hitems]
    exact hroom

end Sites

theorem written_of_writeAt? {w : Heap.Write} (hid : m.heap.find? id = some o)
    (hw : Heap.writeAt? o (Number.position? (m.heap.toNumber value)) value (o.site key) = some w)
    (hchanged : m.heap.Changed id (w.change o) n.heap) (halike : m.heap.Alike n.heap) :
    Written s m n id o key value := by
  unfold Heap.writeAt? at hw
  split at hw
  · next hsite =>
    split at hw
    · next length hlength =>
      split at hw
      · next hroom =>
        obtain rfl := Option.some.inj hw
        exact written_length hid halike hsite hlength hroom hchanged
      · exact nomatch hw
    · exact nomatch hw
  · next index hsite =>
    split at hw
    · next hroom =>
      obtain rfl := Option.some.inj hw
      exact written_element hid halike hsite hroom hchanged
    · exact nomatch hw
  · next name hsite =>
    obtain rfl := Option.some.inj hw
    exact written_name hid halike hsite hchanged

/--
A property of a live object is read as it was written, the length of an array cuts it off or fills
it up, and all else is read as before. A write that throws or runs out of memory leaves all there
was as it was.
-/
theorem writes_read_back (hs : m.heap.Sound) (hid : m.heap.find? id = some o) (key : String)
    (value : Value) (s : Setting) :
    match setProperty (.object id) key value s m with
    | .ok () n => Written s m n id o key value
    | .error e n => ((∃ v, e = .thrown v) ∨ e = .terminated .memoryLimit) ∧ Untouched s m n := by
  cases hw : Heap.writeAt? o (Number.position? (m.heap.toNumber value)) value (o.site key) with
  | none =>
    obtain ⟨e, n, hcomplained, hends⟩ := complain_untouched (s := s) hs .arrayLength
    rw [setProperty_refused hid hw, hcomplained]
    exact hends
  | some w =>
    rcases setProperty_write (s := s) hs hid hw with hno | ⟨h', hok, hchanged, halike⟩
    · rw [hno]
      exact ⟨.inr rfl, .of_find? fun _ _ ho => ho⟩
    · rw [hok]
      exact written_of_writeAt? hid hw hchanged halike

/-- An array of one element is given a third, and has undefined for its second then. -/
theorem writes_read_back_gap :
    let s : Setting := ⟨fun _ _ => none, 100, 128, ⟨0, 0, 0⟩, 0⟩
    let o : HeapObject := ⟨.array #[.string "a"], []⟩
    let m := Machine.start ((Heap.empty 0 {}).allocateHost o).2 Scopes.empty.openGlobal.2 none
      (.new "" [] true (.dedicated .new))
    m.heap.Sound ∧ m.heap.find? ⟨0, 0, 0⟩ = some o ∧
      ∃ n, setProperty (.object ⟨0, 0, 0⟩) "+02" (.string "c") s m = .ok () n ∧
        Reads s n ⟨0, 0, 0⟩ "2" (.string "c") ∧ Reads s n ⟨0, 0, 0⟩ "1" .undefined ∧
        Reads s n ⟨0, 0, 0⟩ "0" (.string "a") := by
  intro s o m
  have hsound : m.heap.Sound := ((Heap.Sound.empty 0 {}).place o o.slots).sound
  have hid : m.heap.find? ⟨0, 0, 0⟩ = some o := rfl
  have hread := writes_read_back hsound hid "+02" (.string "c") s
  obtain ⟨n, hn⟩ : ∃ n, setProperty (.object ⟨0, 0, 0⟩) "+02" (.string "c") s m = .ok () n :=
    ⟨_, rfl⟩
  rw [hn] at hread
  have hkept (k : String) (index : Nat) (hk : o.site k = .element index) (hindex : index ≠ 2)
      (v : Value) : Reads s n ⟨0, 0, 0⟩ k v ↔ Reads s m ⟨0, 0, 0⟩ k v := by
    have hsite : o.site "+02" = .element 2 := by decide
    refine hread.elsewhere k ?_ (fun h => nomatch hsite.symm.trans h)
      (fun h => nomatch hk.symm.trans h) v
    rw [hk, hsite]
    exact fun h => hindex (Site.element.inj h)
  exact ⟨hsound, hid, n, hn, hread.here (by decide) "2" (by decide),
    (hkept "1" 1 (by decide) (by decide) _).2 rfl, (hkept "0" 0 (by decide) (by decide) _).2 rfl⟩

end Run

end ScriptHost

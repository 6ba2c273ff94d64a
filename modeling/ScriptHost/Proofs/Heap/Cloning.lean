import ScriptHost.Proofs.Heap.Unfolding

/-!
Cloning gives the tree that a value unfolds to, if the value has one that is not too deep or large.
-/

namespace ScriptHost.Heap

variable {α β : Type}

/-! ## Allowances -/

/-- What a part of cloning gives, at which cost; it fails if and only if it cannot afford it. -/
def Costs (x : Cloning α) (gives : α → Nat → Prop) : Prop :=
  ∀ allowance a left, x allowance = .ok (a, left) ↔ ∃ cost, gives a cost ∧ allowance = left + cost

namespace Costs

variable {x : Cloning α} {gives gives' : α → Nat → Prop} {more : α → β → Nat → Prop}

theorem of_iff (hx : Costs x gives) (h : ∀ a cost, gives a cost ↔ gives' a cost) :
    Costs x gives' := by
  intro allowance a left
  simp only [hx allowance a left, h]

theorem pure (a : α) : Costs (Pure.pure a) fun b cost => b = a ∧ cost = 0 := by
  intro allowance b left
  constructor
  · intro h
    obtain ⟨rfl, rfl⟩ := Prod.mk.inj (Except.ok.inj h)
    exact ⟨0, ⟨rfl, rfl⟩, rfl⟩
  · rintro ⟨cost, ⟨rfl, rfl⟩, rfl⟩
    rfl

theorem throw (e : CloneError) : Costs (throw e : Cloning α) fun _ _ => False := by
  intro allowance b left
  constructor
  · intro h
    exact nomatch h
  · rintro ⟨_, h, -⟩
    exact h.elim

theorem spend (n : Nat) : Costs (Heap.spend n) fun _ cost => cost = n := by
  intro allowance b left
  unfold Heap.spend
  split
  · next hfits =>
    constructor
    · intro h
      obtain ⟨rfl, rfl⟩ := Prod.mk.inj (Except.ok.inj h)
      exact ⟨n, rfl, by omega⟩
    · rintro ⟨cost, rfl, rfl⟩
      rw [Nat.add_sub_cancel]
  · next hshort =>
    constructor
    · intro h
      exact nomatch h
    · rintro ⟨cost, rfl, rfl⟩
      omega

theorem bind {f : α → Cloning β} (hx : Costs x gives) (hf : ∀ a, Costs (f a) (more a)) :
    Costs (x >>= f) fun b cost => ∃ a k l, gives a k ∧ more a b l ∧ cost = k + l := by
  intro allowance b left
  have hbind : (x >>= f) allowance = (x allowance).bind fun p => f p.1 p.2 := rfl
  rw [hbind]
  constructor
  · intro h
    cases hstep : x allowance with
    | error e => exact nomatch hstep ▸ h
    | ok p =>
      obtain ⟨a, between⟩ := p
      rw [hstep] at h
      obtain ⟨k, hk, rfl⟩ := (hx allowance a between).1 hstep
      obtain ⟨l, hl, rfl⟩ := (hf a between b left).1 h
      exact ⟨k + l, ⟨a, k, l, hk, hl, rfl⟩, by omega⟩
  · rintro ⟨cost, ⟨a, k, l, hk, hl, rfl⟩, rfl⟩
    have hstep : x (left + (k + l)) = .ok (a, left + l) := (hx _ _ _).2 ⟨k, hk, by omega⟩
    rw [hstep]
    exact (hf a _ _ _).2 ⟨l, hl, rfl⟩

theorem map (f : α → β) (hx : Costs x gives) :
    Costs (f <$> x) fun b cost => ∃ a, gives a cost ∧ b = f a := by
  rw [map_eq_pure_bind]
  refine (hx.bind fun a => pure (f a)).of_iff fun b cost => ?_
  constructor
  · rintro ⟨a, k, l, hk, ⟨rfl, rfl⟩, rfl⟩
    exact ⟨a, hk, rfl⟩
  · rintro ⟨a, hk, rfl⟩
    exact ⟨a, cost, 0, hk, ⟨rfl, rfl⟩, rfl⟩

end Costs

/-! ## Cloning -/

section

open DataTree

variable {h : Heap} {clone : Value → Cloning Json} {room : Nat}

/-- A value is cloned as its tree, if that one is less deep than given. -/
def Clones (h : Heap) (room : Nat) (v : Value) (json : Json) (cost : Nat) : Prop :=
  ∃ t, h.Unfolds v t ∧ t.depth < room ∧ t.json = json ∧ t.size = cost

theorem costs_cloneItems (hclone : ∀ v, Costs (clone v) (h.Clones room v)) (found : Array Json)
    (items : List Value) :
    Costs (cloneItems clone found items) fun docs cost => ∃ trees, h.UnfoldsItems items trees ∧
      depthOfItems trees ≤ room ∧ found.toList ++ jsonOfItems trees = docs ∧
      sizeOfItems trees = cost := by
  induction items generalizing found with
  | nil =>
    refine (Costs.pure found.toList).of_iff fun docs cost => ?_
    constructor
    · rintro ⟨rfl, rfl⟩
      exact ⟨[], .nil, Nat.zero_le _, by simp [jsonOfItems], rfl⟩
    · rintro ⟨trees, hitems, -, rfl, rfl⟩
      cases hitems
      exact ⟨by simp [jsonOfItems], rfl⟩
  | cons item rest ih =>
    refine ((hclone item).bind fun json => ih (found.push json)).of_iff fun docs cost => ?_
    constructor
    · rintro ⟨json, k, l, ⟨t, ht, hdepth, rfl, rfl⟩, ⟨trees, hrest, hdeep, rfl, rfl⟩, rfl⟩
      refine ⟨t :: trees, .cons ht hrest, ?_, by simp [jsonOfItems], rfl⟩
      simp [depthOfItems]
      omega
    · rintro ⟨trees, hitems, hdepth, rfl, rfl⟩
      cases hitems with
      | @cons _ t _ trees ht hrest =>
        simp [depthOfItems] at hdepth
        exact ⟨t.json, t.size, sizeOfItems trees, ⟨t, ht, by omega, rfl, rfl⟩,
          ⟨trees, hrest, by omega, by simp [jsonOfItems], rfl⟩, rfl⟩

theorem costs_cloneMembers (hclone : ∀ v, Costs (clone v) (h.Clones room v))
    (found : List (String × Json)) (table : Table Value) :
    Costs (cloneMembers clone found table) fun docs cost => ∃ members,
      h.UnfoldsMembers table members ∧ depthOfMembers members ≤ room ∧
      jsonOfMembers found members = docs ∧ sizeOfMembers members = cost := by
  induction table generalizing found with
  | nil =>
    refine (Costs.pure found).of_iff fun docs cost => ?_
    constructor
    · rintro ⟨rfl, rfl⟩
      exact ⟨[], .nil, Nat.zero_le _, rfl, rfl⟩
    · rintro ⟨members, hmembers, -, rfl, rfl⟩
      cases hmembers
      exact ⟨rfl, rfl⟩
  | cons first rest ih =>
    obtain ⟨key, v⟩ := first
    by_cases hv : v = .undefined
    · subst hv
      rw [cloneMembers, if_pos rfl]
      refine (ih found).of_iff fun docs cost => ?_
      constructor
      · rintro ⟨members, hrest, hmore⟩
        exact ⟨members, .skip hrest, hmore⟩
      · rintro ⟨members, hmembers, hmore⟩
        cases hmembers with
        | skip hrest => exact ⟨members, hrest, hmore⟩
        | keep hdefined => exact absurd rfl hdefined
    · rw [cloneMembers, if_neg hv]
      refine ((Costs.spend key.utf8ByteSize).bind fun _ => (hclone v).bind fun json =>
        ih (Json.insert key json found)).of_iff fun docs cost => ?_
      constructor
      · rintro ⟨-, k, l, rfl, ⟨json, k', l', ⟨t, ht, hdepth, rfl, rfl⟩,
          ⟨members, hrest, hdeep, rfl, rfl⟩, rfl⟩, rfl⟩
        refine ⟨(key, t) :: members, .keep hv ht hrest, ?_, rfl, ?_⟩
        · simp [depthOfMembers]
          omega
        · simp [sizeOfMembers]
          omega
      · rintro ⟨members, hmembers, hdepth, rfl, rfl⟩
        cases hmembers with
        | skip => exact absurd rfl hv
        | @keep _ _ t _ members _ ht hrest =>
          simp [depthOfMembers] at hdepth
          exact ⟨(), key.utf8ByteSize, t.size + sizeOfMembers members, rfl, ⟨t.json, t.size,
            sizeOfMembers members, ⟨t, ht, by omega, rfl, rfl⟩,
            ⟨members, hrest, by omega, rfl, rfl⟩, rfl⟩, by simp [sizeOfMembers]; omega⟩

/-- The parts of an object are cloned as the parts of its tree; the object itself costs one more. -/
def ClonesParts (h : Heap) (room : Nat) (id : ObjectId) (json : Json) (cost : Nat) : Prop :=
  ∃ t, h.Unfolds (.object id) t ∧ t.depth ≤ room ∧ t.json = json ∧ t.size = cost + 1

variable {id : ObjectId}

theorem costs_list (hclone : ∀ v, Costs (clone v) (h.Clones room v)) {items : Array Value}
    (hkind : (h.object id).kind = .array items) :
    Costs (Json.list <$> cloneItems clone #[] items.toList) (h.ClonesParts room id) := by
  refine ((costs_cloneItems hclone #[] items.toList).map Json.list).of_iff fun json cost => ?_
  constructor
  · rintro ⟨docs, ⟨trees, hitems, hdepth, rfl, rfl⟩, rfl⟩
    exact ⟨.list trees, .array hkind hitems, hdepth, rfl, Nat.add_comm _ _⟩
  · rintro ⟨t, ht, hdepth, rfl, hsize⟩
    obtain ⟨trees, rfl, hitems⟩ := (unfolds_array hkind).1 ht
    refine ⟨_, ⟨trees, hitems, hdepth, rfl, ?_⟩, rfl⟩
    simp [size] at hsize
    omega

theorem costs_object (hclone : ∀ v, Costs (clone v) (h.Clones room v))
    (htrees : ∀ t, h.Unfolds (.object id) t ↔
      ∃ members, t = .object members ∧ h.UnfoldsMembers (h.object id).properties members) :
    Costs (Json.object <$> cloneMembers clone [] (h.object id).properties)
      (h.ClonesParts room id) := by
  refine ((costs_cloneMembers hclone [] _).map Json.object).of_iff fun json cost => ?_
  constructor
  · rintro ⟨docs, ⟨members, hall, hdepth, rfl, rfl⟩, rfl⟩
    exact ⟨.object members, (htrees _).2 ⟨members, rfl, hall⟩, hdepth, rfl, Nat.add_comm _ _⟩
  · rintro ⟨t, ht, hdepth, rfl, hsize⟩
    obtain ⟨members, rfl, hall⟩ := (htrees t).1 ht
    refine ⟨_, ⟨members, hall, hdepth, rfl, ?_⟩, rfl⟩
    simp [size] at hsize
    omega

theorem costs_callable (hcall : (h.object id).isCallable = true) (e : CloneError) :
    Costs (throw e) (h.ClonesParts room id) := by
  refine (Costs.throw e).of_iff fun json cost => ⟨False.elim, ?_⟩
  rintro ⟨t, ht, -⟩
  exact not_unfolds_callable hcall ht

theorem costs_cloneObject (hclone : ∀ v, Costs (clone v) (h.Clones room v)) (id : ObjectId) :
    Costs (cloneObject clone (h.object id)) (h.ClonesParts room id) := by
  unfold cloneObject
  cases hkind : (h.object id).kind with
  | array items => exact costs_list hclone hkind
  | ordinary => exact costs_object hclone fun _ => unfolds_ordinary hkind
  | error kind => exact costs_object hclone fun _ => unfolds_error hkind
  | function | native => exact costs_callable (by simp [HeapObject.isCallable, hkind]) _

theorem costs_cloneWithin (h : Heap) (room : Nat) (v : Value) :
    Costs (h.cloneWithin room v) (h.Clones room v) := by
  induction room generalizing v with
  | zero =>
    refine (Costs.throw _).of_iff fun json cost => ⟨False.elim, ?_⟩
    rintro ⟨t, -, hdepth, -⟩
    exact nomatch hdepth
  | succ room ih =>
    have hleaf {t : DataTree} (ht : h.Unfolds v t) (honly : ∀ u, h.Unfolds v u → u = t)
        (hflat : t.depth = 0) (hcost : cloneCost v = t.size) :
        Costs (spend (cloneCost v) >>= fun _ => pure t.json) (h.Clones (room + 1) v) := by
      refine ((Costs.spend _).bind fun _ => Costs.pure _).of_iff fun json cost => ?_
      constructor
      · rintro ⟨-, k, l, rfl, ⟨rfl, rfl⟩, rfl⟩
        exact ⟨t, ht, by omega, rfl, hcost.symm⟩
      · rintro ⟨u, hu, -, rfl, rfl⟩
        obtain rfl := honly u hu
        exact ⟨(), u.size, 0, hcost.symm, ⟨rfl, rfl⟩, rfl⟩
    cases v with
    | undefined => exact hleaf .undefined (fun u hu => by cases hu; rfl) rfl rfl
    | null => exact hleaf .null (fun u hu => by cases hu; rfl) rfl rfl
    | bool b => exact hleaf .bool (fun u hu => by cases hu; rfl) rfl rfl
    | number x => exact hleaf .number (fun u hu => by cases hu; rfl) rfl rfl
    | string s => exact hleaf .text (fun u hu => by cases hu; rfl) rfl rfl
    | object id =>
      refine ((Costs.spend 1).bind fun _ => costs_cloneObject ih id).of_iff fun json cost => ?_
      constructor
      · rintro ⟨-, k, l, rfl, ⟨t, ht, hdepth, rfl, hsize⟩, rfl⟩
        exact ⟨t, ht, by omega, rfl, by omega⟩
      · rintro ⟨t, ht, hdepth, rfl, rfl⟩
        have hpos := t.size_pos
        exact ⟨(), 1, t.size - 1, rfl, ⟨t, ht, by omega, rfl, by omega⟩, by omega⟩

end

/-- A value is cloned if and only if its tree is neither too deep nor too large. -/
theorem toJson_eq_ok_iff {h : Heap} {v : Value} {json : Json} :
    h.toJson v = .ok json ↔ ∃ t, h.Unfolds v t ∧ t.depth ≤ nestingLimit ∧
      t.size ≤ h.maxString ∧ t.json = json := by
  have hcosts := h.costs_cloneWithin (nestingLimit + 1) v h.maxString json
  unfold toJson
  constructor
  · intro hok
    cases hclone : h.cloneWithin (nestingLimit + 1) v h.maxString with
    | error e => exact nomatch hclone ▸ hok
    | ok p =>
      obtain ⟨doc, left⟩ := p
      rw [hclone] at hok
      obtain rfl := Except.ok.inj hok
      obtain ⟨cost, ⟨t, ht, hdepth, rfl, rfl⟩, hleft⟩ := (hcosts left).1 hclone
      exact ⟨t, ht, by omega, by omega, rfl⟩
  · rintro ⟨t, ht, hdepth, hsize, rfl⟩
    have hclone := (hcosts (h.maxString - t.size)).2
      ⟨t.size, ⟨t, ht, by omega, rfl, rfl⟩, by omega⟩
    rw [hclone]
    rfl

/-! ## Values looked at -/

/-- What is looked at next, with the allowance that is left. -/
def lookOn (step : Except CloneError (α × Nat)) (more : Nat → List Value) : List Value :=
  match step with
  | .ok (_, left) => more left
  | .error _ => []

section

variable (clone : Value → Cloning Json) (look : Value → Nat → List Value)

def lookItems : List Value → Nat → List Value
  | [], _ => []
  | item :: rest, allowance =>
      look item allowance ++ lookOn (clone item allowance) (lookItems rest)

def lookMembers : Table Value → Nat → List Value
  | [], _ => []
  | (key, value) :: rest, allowance =>
      if value = .undefined then lookMembers rest allowance
      else
        lookOn (spend key.utf8ByteSize allowance) fun left =>
          look value left ++ lookOn (clone value left) (lookMembers rest)

def lookObject (o : HeapObject) (allowance : Nat) : List Value :=
  match o.kind with
  | .array items => lookItems clone look items.toList allowance
  | .ordinary => lookMembers clone look o.properties allowance
  | .error _ => lookMembers clone look o.properties allowance
  | .function .. => []
  | .native _ => []

end

/-- The values that cloning looks at, one after the other, until it is done or fails. -/
def lookWithin (h : Heap) : Nat → Value → Nat → List Value
  | 0, value, _ => [value]
  | room + 1, value, allowance =>
      value :: lookOn (spend (cloneCost value) allowance) fun left =>
        match value with
        | .object id => lookObject (h.cloneWithin room) (lookWithin h room) (h.object id) left
        | _ => []

def lookedAt (h : Heap) (v : Value) : List Value :=
  h.lookWithin (nestingLimit + 1) v h.maxString

section

variable {clone : Value → Cloning Json} {look : Value → Nat → List Value} {seen : List Value}

/-- At most one more value is looked at than the allowance pays for, and that one only in vain. -/
def Frugal (x : Cloning α) (allowance : Nat) (seen : List Value) : Prop :=
  seen.length ≤ allowance + 1 ∧
    ∀ a left, x allowance = .ok (a, left) → seen.length + left ≤ allowance

theorem Frugal.pure (a : α) (allowance : Nat) : Frugal (Pure.pure a) allowance [] := by
  constructor
  · simp
  · intro b left hok
    obtain ⟨-, rfl⟩ := Prod.mk.inj (Except.ok.inj hok)
    simp

theorem Frugal.throw (e : CloneError) (allowance : Nat) :
    Frugal (throw e : Cloning α) allowance [] := by
  constructor
  · simp
  · intro b left hok
    exact nomatch hok

theorem Frugal.map {x : Cloning α} {allowance : Nat} (hx : Frugal x allowance seen) (f : α → β) :
    Frugal (f <$> x) allowance seen := by
  refine ⟨hx.1, fun b left hok => ?_⟩
  cases hstep : x allowance with
  | error e =>
    have hmap : (f <$> x) allowance = .error e := by
      change (x allowance).map (fun p => (f p.1, p.2)) = _
      rw [hstep]
      rfl
    exact nomatch hmap.symm.trans hok
  | ok p =>
    obtain ⟨a, rest⟩ := p
    have hmap : (f <$> x) allowance = .ok (f a, rest) := by
      change (x allowance).map (fun p => (f p.1, p.2)) = _
      rw [hstep]
      rfl
    obtain ⟨-, rfl⟩ := Prod.mk.inj (Except.ok.inj (hmap.symm.trans hok))
    exact hx.2 a rest hstep

theorem Frugal.bind {x : Cloning α} {f : α → Cloning β} {allowance : Nat} {more : Nat → List Value}
    (hx : Frugal x allowance seen) (hf : ∀ a left, Frugal (f a) left (more left)) :
    Frugal (x >>= f) allowance (seen ++ lookOn (x allowance) more) := by
  have hbind : (x >>= f) allowance = (x allowance).bind fun p => f p.1 p.2 := rfl
  cases hstep : x allowance with
  | error e =>
    rw [hstep] at hbind
    refine ⟨by simpa [lookOn] using hx.1, fun b left hok => ?_⟩
    exact nomatch hbind.symm.trans hok
  | ok p =>
    obtain ⟨a, left⟩ := p
    rw [hstep] at hbind
    have hpaid := hx.2 a left hstep
    obtain ⟨hmore, hdone⟩ := hf a left
    refine ⟨?_, fun b rest hok => ?_⟩
    · simp [lookOn]
      omega
    · have hpaid' := hdone b rest (hbind.symm.trans hok)
      simp [lookOn]
      omega

theorem frugal_spend {n : Nat} (hone : seen.length ≤ 1) (hpaid : seen.length ≤ n)
    (allowance : Nat) : Frugal (spend n) allowance seen := by
  constructor
  · omega
  · intro a left hok
    unfold spend at hok
    split at hok
    · obtain ⟨-, rfl⟩ := Prod.mk.inj (Except.ok.inj hok)
      omega
    · exact nomatch hok

theorem frugal_cloneItems (hclone : ∀ v allowance, Frugal (clone v) allowance (look v allowance))
    (found : Array Json) (items : List Value) (allowance : Nat) :
    Frugal (cloneItems clone found items) allowance (lookItems clone look items allowance) := by
  induction items generalizing found allowance with
  | nil => exact .pure found.toList allowance
  | cons item rest ih =>
    exact (hclone item allowance).bind fun json left => ih (found.push json) left

theorem frugal_cloneMembers
    (hclone : ∀ v allowance, Frugal (clone v) allowance (look v allowance))
    (found : List (String × Json)) (table : Table Value) (allowance : Nat) :
    Frugal (cloneMembers clone found table) allowance
      (lookMembers clone look table allowance) := by
  induction table generalizing found allowance with
  | nil => exact .pure found allowance
  | cons first rest ih =>
    obtain ⟨key, v⟩ := first
    unfold cloneMembers lookMembers
    split
    · exact ih found allowance
    · have hkey : Frugal (spend key.utf8ByteSize) allowance [] :=
        frugal_spend (by simp) (by simp) allowance
      exact hkey.bind fun _ left =>
        (hclone v left).bind fun json left => ih (Json.insert key json found) left

theorem frugal_cloneObject (hclone : ∀ v allowance, Frugal (clone v) allowance (look v allowance))
    (o : HeapObject) (allowance : Nat) :
    Frugal (cloneObject clone o) allowance (lookObject clone look o allowance) := by
  unfold cloneObject lookObject
  cases o.kind with
  | array items => exact (frugal_cloneItems hclone #[] items.toList allowance).map Json.list
  | ordinary | error => exact (frugal_cloneMembers hclone [] o.properties allowance).map Json.object
  | function | native => exact .throw .function allowance

theorem frugal_cloneWithin (h : Heap) (room : Nat) (v : Value) (allowance : Nat) :
    Frugal (h.cloneWithin room v) allowance (h.lookWithin room v allowance) := by
  induction room generalizing v allowance with
  | zero =>
    constructor
    · simp [lookWithin]
    · intro json left hok
      exact nomatch hok
  | succ room ih =>
    have hcost : 1 ≤ cloneCost v := by cases v <;> simp [cloneCost]
    have hpaid : Frugal (spend (cloneCost v)) allowance [v] :=
      frugal_spend (by simp) (by simpa using hcost) allowance
    cases v with
    | object id => exact hpaid.bind fun _ left => frugal_cloneObject ih (h.object id) left
    | _ => exact hpaid.bind fun _ left => .pure _ left

end

/--
Exactly the values that unfold to a tree, of limited depth and size, are cloned, and the document
is that tree. Whatever leads to a circle is refused, and never are many values looked at.
-/
theorem cloning_exact (h : Heap) (v : Value) :
    (∀ json, h.toJson v = .ok json ↔ ∃ t, h.Unfolds v t ∧ t.depth ≤ 64 ∧
      t.size ≤ h.maxString ∧ t.json = json) ∧
    (∀ w, Relation.ReflTransGen h.Opens v w → Relation.TransGen h.Opens w w →
      ∃ e, h.toJson v = .error e) ∧
    (h.lookedAt v).length ≤ h.maxString + 1 := by
  refine ⟨fun json => toJson_eq_ok_iff, fun w hw hcircle => ?_, ?_⟩
  · cases hjson : h.toJson v with
    | error e => exact ⟨e, rfl⟩
    | ok json =>
      obtain ⟨t, ht, -⟩ := toJson_eq_ok_iff.1 hjson
      exact absurd ht (not_unfolds_of_reaches_circle hw hcircle)
  · exact (h.frugal_cloneWithin (nestingLimit + 1) v h.maxString).1

/-- An array that holds itself, next to what it also holds. -/
theorem cloning_exact_circle :
    let h := ((Heap.empty 0 {}).allocateHost ⟨.array #[.null, .object ⟨0, 0, 0⟩], []⟩).2
    Relation.TransGen h.Opens (.object ⟨0, 0, 0⟩) (.object ⟨0, 0, 0⟩) ∧
      (∃ e, h.toJson (.object ⟨0, 0, 0⟩) = .error e) ∧
      (h.lookedAt (.object ⟨0, 0, 0⟩)).length ≤ h.maxString + 1 := by
  intro h
  have hkind : (h.object ⟨0, 0, 0⟩).kind = .array #[.null, .object ⟨0, 0, 0⟩] := rfl
  have hcircle : Relation.TransGen h.Opens (.object ⟨0, 0, 0⟩) (.object ⟨0, 0, 0⟩) :=
    .single (.item hkind (by simp))
  obtain ⟨-, hrefused, hfew⟩ := cloning_exact h (.object ⟨0, 0, 0⟩)
  exact ⟨hcircle, hrefused _ .refl hcircle, hfew⟩

end ScriptHost.Heap

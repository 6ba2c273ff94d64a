import Mathlib.Data.List.Forall2
import ScriptHost.Heap.Basic

/-!
Values, objects and scopes that are the same but for the names of objects.
-/

namespace ScriptHost

variable {R S : ObjectId → ObjectId → Prop} {P Q : ScopeId → Prop}

namespace Value

inductive Matches (R : ObjectId → ObjectId → Prop) : Value → Value → Prop
  | object {a b : ObjectId} : R a b → Matches R (.object a) (.object b)
  | primitive {v : Value} : v.object? = none → Matches R v v

namespace Matches

variable {v v' : Value}

theorem mono (hRS : ∀ a b, R a b → S a b) (h : Matches R v v') : Matches S v v' := by
  cases h with
  | object hr => exact .object (hRS _ _ hr)
  | primitive hv => exact .primitive hv

theorem swap (h : Matches R v v') : Matches (fun a b => R b a) v' v := by
  cases h with
  | object hr => exact .object hr
  | primitive hv => exact .primitive hv

theorem diagonal (h : ∀ id, v = .object id → R id id) : Matches R v v := by
  cases v with
  | object id => exact .object (h id rfl)
  | _ => exact .primitive rfl

theorem refl_eq (v : Value) : Matches Eq v v :=
  diagonal fun _ _ => rfl

theorem eq_of_eq (h : Matches Eq v v') : v = v' := by
  cases h with
  | object hr => rw [hr]
  | primitive => rfl

theorem list_eq {vs vs' : List Value} (h : List.Forall₂ (Matches Eq) vs vs') : vs = vs' :=
  List.forall₂_eq_eq_eq ▸ h.imp fun _ _ hv => hv.eq_of_eq

theorem slots_eq (h : Matches R v v') : v.slots = v'.slots := by
  cases h <;> rfl

theorem isNullish_eq (h : Matches R v v') : v.isNullish = v'.isNullish := by
  cases h <;> rfl

theorem truthy_eq (h : Matches R v v') : v.truthy = v'.truthy := by
  cases h <;> rfl

theorem primitiveNumber?_eq (h : Matches R v v') : v.primitiveNumber? = v'.primitiveNumber? := by
  cases h <;> rfl

theorem object_rel {a b : ObjectId} (h : Matches R (.object a) (.object b)) : R a b := by
  cases h with
  | object hr => exact hr
  | primitive hv => exact nomatch hv

theorem undefined_iff (h : Matches R v v') : v = .undefined ↔ v' = .undefined := by
  cases h with
  | object => simp
  | primitive => exact Iff.rfl

theorem strictEquals_eq (hu : Relator.BiUnique R) {u u' : Value} (h : Matches R v v')
    (hw : Matches R u u') : v.strictEquals u = v'.strictEquals u' := by
  cases h with
  | primitive hv =>
    cases hw with
    | primitive => rfl
    | object => cases v <;> first | rfl | exact nomatch hv
  | @object a b hr =>
    cases hw with
    | primitive hu => cases u <;> first | rfl | exact nomatch hu
    | @object c d hs =>
      have hiff : a = c ↔ b = d :=
        ⟨fun hac => hu.2 hr (hac ▸ hs), fun hbd => hu.1 hr (hbd ▸ hs)⟩
      simp only [strictEquals, beq_eq_beq]
      exact hiff

end Matches

end Value

/-! ## Tables -/

namespace Table

variable {α β : Type} {T U : α → β → Prop} {t : Table α} {t' : Table β}

def Matches (T : α → β → Prop) (t : Table α) (t' : Table β) : Prop :=
  List.Forall₂ (fun p q => p.1 = q.1 ∧ T p.2 q.2) t t'

namespace Matches

theorem mono (hTU : ∀ a b, T a b → U a b) (h : Matches T t t') : Matches U t t' :=
  List.Forall₂.imp (fun _ _ hp => ⟨hp.1, hTU _ _ hp.2⟩) h

theorem swap (h : Matches T t t') : Matches (fun b a => T a b) t' t := by
  induction h with
  | nil => exact .nil
  | cons hp _ ih => exact .cons ⟨hp.1.symm, hp.2⟩ ih

theorem values (h : Matches T t t') : List.Forall₂ T (t.map Prod.snd) (t'.map Prod.snd) := by
  induction h with
  | nil => exact .nil
  | cons hp _ ih => exact .cons hp.2 ih

theorem get?_rel (h : Matches T t t') (key : String) :
    Option.Rel T (t.get? key) (t'.get? key) := by
  induction h with
  | nil => exact .none
  | @cons p q _ _ hp _ ih =>
    obtain ⟨k, a⟩ := p
    obtain ⟨_, b⟩ := q
    obtain ⟨rfl, hab⟩ := hp
    by_cases hk : k = key
    · simpa [Table.get?, hk] using hab
    · simpa [Table.get?, hk] using ih

theorem put (h : Matches T t t') (key : String) {a : α} {b : β} (hab : T a b) :
    Matches T (t.put key a) (t'.put key b) := by
  induction h with
  | nil => exact .cons ⟨rfl, hab⟩ .nil
  | @cons p q _ _ hp hrest ih =>
    obtain ⟨k, c⟩ := p
    obtain ⟨_, d⟩ := q
    obtain ⟨rfl, hcd⟩ := hp
    by_cases hk : k = key
    · simp only [Table.put, hk, if_true]
      exact .cons ⟨rfl, hab⟩ hrest
    · simp only [Table.put, hk, if_false]
      exact .cons ⟨rfl, hcd⟩ ih

end Matches

theorem matches_cons (key : String) {a : α} {b : β} (hab : T a b) (h : Matches T t t') :
    Matches T ((key, a) :: t) ((key, b) :: t') :=
  List.Forall₂.cons ⟨rfl, hab⟩ h

theorem matches_refl {T : α → α → Prop} (t : Table α) (h : ∀ p ∈ t, T p.2 p.2) :
    Matches T t t :=
  List.forall₂_same.2 fun p hp => ⟨rfl, h p hp⟩

end Table

/-! ## Objects -/

inductive ObjectKind.Matches (R : ObjectId → ObjectId → Prop) (P : ScopeId → Prop) :
    ObjectKind → ObjectKind → Prop
  | ordinary : Matches R P .ordinary .ordinary
  | array {xs ys : Array Value} :
      List.Forall₂ (Value.Matches R) xs.toList ys.toList → Matches R P (.array xs) (.array ys)
  | function {code : Source.Function} {closure : ScopeId} :
      P closure → Matches R P (.function code closure) (.function code closure)
  | native {f : Native} : Matches R P (.native f) (.native f)
  | error {kind : ErrorKind} : Matches R P (.error kind) (.error kind)

namespace ObjectKind.Matches

variable {kind kind' : ObjectKind}

theorem mono (hRS : ∀ a b, R a b → S a b) (hPQ : ∀ i, P i → Q i) (h : Matches R P kind kind') :
    Matches S Q kind kind' := by
  cases h with
  | ordinary => exact .ordinary
  | array hitems => exact .array (hitems.imp fun _ _ hv => hv.mono hRS)
  | function hclosure => exact .function (hPQ _ hclosure)
  | native => exact .native
  | error => exact .error

theorem swap (h : Matches R P kind kind') : Matches (fun a b => R b a) P kind' kind := by
  cases h with
  | ordinary => exact .ordinary
  | array hitems => exact .array (hitems.imp (fun _ _ hv => hv.swap)).flip
  | function hclosure => exact .function hclosure
  | native => exact .native
  | error => exact .error

end ObjectKind.Matches

theorem slotsOf_eq {vs vs' : List Value} (h : List.Forall₂ (Value.Matches R) vs vs') :
    slotsOf vs = slotsOf vs' := by
  induction h with
  | nil => rfl
  | cons hv _ ih => simp only [slotsOf, List.foldr_cons, hv.slots_eq] at ih ⊢; rw [ih]

namespace HeapObject

structure Matches (R : ObjectId → ObjectId → Prop) (P : ScopeId → Prop) (o o' : HeapObject) :
    Prop where
  kind : ObjectKind.Matches R P o.kind o'.kind
  properties : Table.Matches (Value.Matches R) o.properties o'.properties

def ItemsMatch (R : ObjectId → ObjectId → Prop) (xs ys : Array Value) : Prop :=
  List.Forall₂ (Value.Matches R) xs.toList ys.toList

namespace Matches

variable {o o' : HeapObject}

theorem of {kind kind' : ObjectKind} {t t' : Table Value}
    (hkind : ObjectKind.Matches R P kind kind') (ht : Table.Matches (Value.Matches R) t t') :
    Matches R P ⟨kind, t⟩ ⟨kind', t'⟩ :=
  ⟨hkind, ht⟩

theorem mono (hRS : ∀ a b, R a b → S a b) (hPQ : ∀ i, P i → Q i) (h : Matches R P o o') :
    Matches S Q o o' :=
  ⟨h.kind.mono hRS hPQ, h.properties.mono fun _ _ hv => hv.mono hRS⟩

theorem swap (h : Matches R P o o') : Matches (fun a b => R b a) P o' o :=
  ⟨h.kind.swap, h.properties.swap.mono fun _ _ hv => hv.swap⟩

theorem items?_rel (h : Matches R P o o') : Option.Rel (ItemsMatch R) o.items? o'.items? := by
  obtain ⟨kind, properties⟩ := o
  obtain ⟨kind', properties'⟩ := o'
  obtain ⟨hkind, -⟩ := h
  cases hkind with
  | array hitems => exact .some hitems
  | _ => exact .none

theorem get?_rel (h : Matches R P o o') (key : String) :
    Option.Rel (Value.Matches R) (o.get? key) (o'.get? key) :=
  h.properties.get?_rel key

theorem isCallable_eq (h : Matches R P o o') : o.isCallable = o'.isCallable := by
  obtain ⟨kind, properties⟩ := o
  obtain ⟨kind', properties'⟩ := o'
  obtain ⟨hkind, -⟩ := h
  cases hkind <;> rfl

theorem values_forall₂ (h : Matches R P o o') :
    List.Forall₂ (Value.Matches R) o.values o'.values := by
  obtain ⟨kind, properties⟩ := o
  obtain ⟨kind', properties'⟩ := o'
  obtain ⟨hkind, hprops⟩ := h
  refine List.rel_append ?_ hprops.values
  cases hkind with
  | array hitems => exact hitems
  | _ => exact .nil

theorem slots_eq (h : Matches R P o o') : o.slots = o'.slots := by
  rw [HeapObject.slots, HeapObject.slots, slotsOf_eq h.values_forall₂]

theorem put (h : Matches R P o o') (key : String) {v v' : Value} (hv : v.Matches R v') :
    Matches R P (o.put key v) (o'.put key v') :=
  ⟨h.kind, h.properties.put key hv⟩

theorem mapItems (h : Matches R P o o') {f g : Array Value → Array Value}
    (hfg : ∀ xs ys, ItemsMatch R xs ys → ItemsMatch R (f xs) (g ys)) :
    Matches R P (o.mapItems f) (o'.mapItems g) := by
  obtain ⟨kind, properties⟩ := o
  obtain ⟨kind', properties'⟩ := o'
  obtain ⟨hkind, hprops⟩ := h
  cases hkind with
  | array hitems => exact ⟨.array (hfg _ _ hitems), hprops⟩
  | ordinary => exact ⟨.ordinary, hprops⟩
  | function hclosure => exact ⟨.function hclosure, hprops⟩
  | native => exact ⟨.native, hprops⟩
  | error => exact ⟨.error, hprops⟩

end Matches

namespace ItemsMatch

variable {xs ys : Array Value}

theorem mono (hRS : ∀ a b, R a b → S a b) (h : ItemsMatch R xs ys) : ItemsMatch S xs ys :=
  List.Forall₂.imp (fun _ _ hv => hv.mono hRS) h

theorem size_eq (h : ItemsMatch R xs ys) : xs.size = ys.size := by
  simpa using h.length_eq

theorem getElem?_rel (h : ItemsMatch R xs ys) (i : Nat) :
    Option.Rel (Value.Matches R) xs[i]? ys[i]? := by
  by_cases hi : i < xs.size
  · have hj : i < ys.size := h.size_eq ▸ hi
    rw [Array.getElem?_eq_getElem hi, Array.getElem?_eq_getElem hj]
    exact .some (by simpa using h.get hi hj)
  · have hj : ¬ i < ys.size := h.size_eq ▸ hi
    rw [Array.getElem?_eq_none (Nat.le_of_not_lt hi), Array.getElem?_eq_none (Nat.le_of_not_lt hj)]
    exact .none

theorem append {zs ws : Array Value} (h : ItemsMatch R xs ys) (hz : ItemsMatch R zs ws) :
    ItemsMatch R (xs ++ zs) (ys ++ ws) := by
  simpa only [ItemsMatch, Array.toList_append] using List.rel_append h hz

theorem appendList {vs ws : List Value} (h : ItemsMatch R xs ys)
    (hv : List.Forall₂ (Value.Matches R) vs ws) : ItemsMatch R (xs ++ vs) (ys ++ ws) := by
  simpa only [ItemsMatch, Array.toList_appendList] using List.rel_append h hv

theorem push (h : ItemsMatch R xs ys) {v w : Value} (hv : v.Matches R w) :
    ItemsMatch R (xs.push v) (ys.push w) := by
  simpa only [ItemsMatch, Array.toList_push] using List.rel_append h (.cons hv .nil)

theorem padded (h : ItemsMatch R xs ys) (size : Nat) :
    ItemsMatch R (Heap.padded xs size) (Heap.padded ys size) := by
  have hfill : ItemsMatch R (Array.replicate (size - xs.size) .undefined)
      (Array.replicate (size - xs.size) .undefined) :=
    List.forall₂_same.2 fun v hv => by
      rw [Array.toList_replicate] at hv
      rw [List.eq_of_mem_replicate hv]
      exact .primitive rfl
  simpa only [Heap.padded, h.size_eq] using h.append hfill

theorem forall₂_set {vs ws : List Value} (h : List.Forall₂ (Value.Matches R) vs ws) (i : Nat)
    {v w : Value} (hv : v.Matches R w) :
    List.Forall₂ (Value.Matches R) (vs.set i v) (ws.set i w) := by
  induction h generalizing i with
  | nil => exact .nil
  | cons hab hrest ih =>
    cases i with
    | zero => exact .cons hv hrest
    | succ i => exact .cons hab (ih i)

theorem set (h : ItemsMatch R xs ys) (i : Nat) {v w : Value} (hv : v.Matches R w) :
    ItemsMatch R (xs.setIfInBounds i v) (ys.setIfInBounds i w) := by
  simpa only [ItemsMatch, Array.toList_setIfInBounds] using forall₂_set h i hv

theorem take (h : ItemsMatch R xs ys) (n : Nat) : ItemsMatch R (xs.take n) (ys.take n) := by
  simpa [ItemsMatch, Array.take] using List.forall₂_take n h

theorem pop (h : ItemsMatch R xs ys) : ItemsMatch R xs.pop ys.pop := by
  simp only [ItemsMatch, Array.toList_pop, List.dropLast_eq_take, h.length_eq]
  exact List.forall₂_take _ h

theorem back?_rel (h : ItemsMatch R xs ys) : Option.Rel (Value.Matches R) xs.back? ys.back? := by
  rw [Array.back?_eq_getElem?, Array.back?_eq_getElem?, h.size_eq]
  exact h.getElem?_rel _

end ItemsMatch

end HeapObject

theorem Heap.errorObject_matches (kind : ErrorKind) (message : String) :
    (errorObject kind message).Matches R P (errorObject kind message) := by
  refine ⟨.error, Table.matches_refl _ fun p hp => ?_⟩
  simp only [errorObject, List.mem_cons, List.not_mem_nil, or_false] at hp
  rcases hp with rfl | rfl <;> exact .primitive rfl

/-! ## Scopes -/

structure Binding.Matches (R : ObjectId → ObjectId → Prop) (b b' : Binding) : Prop where
  value : b.value.Matches R b'.value
  isMutable : b.isMutable = b'.isMutable

structure Scope.Matches (R : ObjectId → ObjectId → Prop) (P : ScopeId → Prop) (s s' : Scope) :
    Prop where
  kind : s.kind = s'.kind
  bindings : Table.Matches (Binding.Matches R) s.bindings s'.bindings
  parent : s.parent = s'.parent
  around : ∀ id, s.parent = some id → P id

namespace Scope.Matches

variable {s s' : Scope}

theorem mono (hRS : ∀ a b, R a b → S a b) (hPQ : ∀ i, P i → Q i) (h : Matches R P s s') :
    Matches S Q s s' :=
  ⟨h.kind, h.bindings.mono fun _ _ hb => ⟨hb.value.mono hRS, hb.isMutable⟩, h.parent,
    fun id hid => hPQ id (h.around id hid)⟩

theorem swap (h : Matches R P s s') : Matches (fun a b => R b a) P s' s :=
  ⟨h.kind.symm, h.bindings.swap.mono fun _ _ hb => ⟨hb.value.swap, hb.isMutable.symm⟩,
    h.parent.symm, fun id hid => h.around id (h.parent.trans hid)⟩

theorem put (h : Matches R P s s') (name : String) {b b' : Binding} (hb : b.Matches R b') :
    Matches R P { s with bindings := s.bindings.put name b }
      { s' with bindings := s'.bindings.put name b' } :=
  ⟨h.kind, h.bindings.put name hb, h.parent, h.around⟩

end Scope.Matches

/-! ## The same names -/

theorem HeapObject.Matches.eq_of_eq {o o' : HeapObject} (h : o.Matches Eq P o') : o = o' := by
  obtain ⟨kind, properties⟩ := o
  obtain ⟨kind', properties'⟩ := o'
  obtain ⟨hkind, hproperties⟩ := h
  have hprops : properties = properties' :=
    List.forall₂_eq_eq_eq ▸ List.Forall₂.imp
      (fun _ _ hp => Prod.ext hp.1 (Value.Matches.eq_of_eq hp.2)) hproperties
  cases hkind with
  | array hitems => rw [Array.toList_inj.1 (Value.Matches.list_eq hitems), hprops]
  | _ => rw [hprops]

theorem Binding.Matches.eq_of_eq {b b' : Binding} (h : b.Matches Eq b') : b = b' := by
  obtain ⟨value, isMutable⟩ := b
  obtain ⟨value', isMutable'⟩ := b'
  obtain ⟨hvalue, hmutable⟩ := h
  exact congr (congrArg Binding.mk hvalue.eq_of_eq) hmutable

theorem Scope.Matches.eq_of_eq {s s' : Scope} (h : s.Matches Eq P s') : s = s' := by
  obtain ⟨kind, bindings, parent⟩ := s
  obtain ⟨kind', bindings', parent'⟩ := s'
  obtain ⟨rfl, hbindings, rfl, -⟩ := h
  have heq : bindings = bindings' :=
    List.forall₂_eq_eq_eq ▸ List.Forall₂.imp
      (fun _ _ hp => Prod.ext hp.1 (Binding.Matches.eq_of_eq hp.2)) hbindings
  rw [heq]

end ScriptHost

import ScriptHost.Proofs.Coupling.Matching
import ScriptHost.Run.Builtin
import ScriptHost.Run.Operator

/-!
What scripts read from matching heaps: the same texts, numbers and documents, and matching values.
-/

namespace ScriptHost

variable {R : ObjectId → ObjectId → Prop} {P : ScopeId → Prop}

structure Heap.Matches (R : ObjectId → ObjectId → Prop) (P : ScopeId → Prop) (h h' : Heap) :
    Prop where
  maxString : h.maxString = h'.maxString
  object : ∀ a b, R a b → (h.object a).Matches R P (h'.object b)

theorem HeapObject.matches_refl (o : HeapObject) : o.Matches Eq (fun _ => True) o := by
  have hvalues (vs : List Value) : List.Forall₂ (Value.Matches Eq) vs vs :=
    List.forall₂_same.2 fun v _ => .refl_eq v
  refine ⟨?_, Table.matches_refl _ fun p _ => .refl_eq p.2⟩
  cases o.kind with
  | ordinary => exact .ordinary
  | array items => exact .array (hvalues _)
  | function => exact .function trivial
  | native => exact .native
  | error => exact .error

theorem Heap.matches_refl (h : Heap) : h.Matches Eq (fun _ => True) h :=
  ⟨rfl, fun a _ hab => hab ▸ (h.object a).matches_refl⟩

namespace Heap

/-! ## Texts -/

section Paint

variable {limit : Nat} {paint paint' : Painter}

theorem paintItems_eq (hpaint : ∀ v v', v.Matches R v' → ∀ c, paint v c = paint' v' c)
    {vs vs' : List Value} (hvs : List.Forall₂ (Value.Matches R) vs vs') (first : Bool)
    (canvas : Canvas) :
    paintItems limit paint first vs canvas = paintItems limit paint' first vs' canvas := by
  induction hvs generalizing first canvas with
  | nil => rfl
  | cons hv _ ih => simp only [paintItems, hv.isNullish_eq, hpaint _ _ hv, ih]

theorem paintPart_eq (hpaint : ∀ v v', v.Matches R v' → ∀ c, paint v c = paint' v' c)
    {v v' : Option Value} (hv : Option.Rel (Value.Matches R) v v') (visits : Nat) :
    paintPart paint v visits = paintPart paint' v' visits := by
  cases hv with
  | some hv => exact hpaint _ _ hv _
  | none => rfl

theorem isSome_eq {α β : Type} {T : α → β → Prop} {a : Option α} {b : Option β}
    (h : Option.Rel T a b) : a.isSome = b.isSome := by
  cases h <;> rfl

theorem paintError_eq (hpaint : ∀ v v', v.Matches R v' → ∀ c, paint v c = paint' v' c)
    {o o' : HeapObject} (ho : o.Matches R P o') (kind : ErrorKind) (canvas : Canvas) :
    paintError paint kind o canvas = paintError paint' kind o' canvas := by
  have hname := ho.get?_rel "name"
  have hmessage := ho.get?_rel "message"
  simp only [paintError, isSome_eq hname, paintPart_eq hpaint hname,
    paintPart_eq hpaint hmessage]

theorem paintObject_eq (hpaint : ∀ v v', v.Matches R v' → ∀ c, paint v c = paint' v' c)
    {o o' : HeapObject} (ho : o.Matches R P o') (canvas : Canvas) :
    paintObject limit paint o canvas = paintObject limit paint' o' canvas := by
  have herror := paintError_eq hpaint ho
  obtain ⟨kind, properties⟩ := o
  obtain ⟨kind', properties'⟩ := o'
  obtain ⟨hkind, -⟩ := ho
  cases hkind with
  | array hitems => exact paintItems_eq hpaint hitems true canvas
  | error => exact herror _ canvas
  | _ => rfl

end Paint

namespace Matches

variable {h h' : Heap} {v v' u u' : Value}

theorem paint_eq (hm : h.Matches R P h') (room : Nat) :
    ∀ v v', v.Matches R v' → ∀ c, h.paint room v c = h'.paint room v' c := by
  induction room with
  | zero =>
    intro v v' hv c
    cases hv <;> simp only [Heap.paint, hm.maxString]
  | succ room ih =>
    intro v v' hv c
    cases hv with
    | object hr => simp only [Heap.paint, hm.maxString, paintObject_eq ih (hm.object _ _ hr)]
    | primitive hv =>
      cases v with
      | object => exact nomatch hv
      | _ => simp only [Heap.paint, hm.maxString]

theorem display_eq (hm : h.Matches R P h') (hv : v.Matches R v') : h.display v = h'.display v' := by
  simp only [display, hm.maxString, hm.paint_eq _ _ _ hv]

theorem toNumber_eq (hm : h.Matches R P h') (hv : v.Matches R v') :
    h.toNumber v = h'.toNumber v' := by
  simp only [toNumber, hv.primitiveNumber?_eq, hm.display_eq hv]

theorem propertyKey_eq (hm : h.Matches R P h') (hv : v.Matches R v') :
    h.propertyKey v = h'.propertyKey v' := by
  have hdisplay := hm.display_eq hv
  cases hv with
  | object => exact hdisplay
  | primitive => cases v <;> first | exact hdisplay | rfl

theorem toPrimitive_eq (hm : h.Matches R P h') (hv : v.Matches R v') :
    h.toPrimitive v = h'.toPrimitive v' := by
  have hdisplay := hm.display_eq hv
  cases hv with
  | object => exact congrArg Value.string hdisplay
  | primitive hv => cases v <;> first | rfl | exact nomatch hv

theorem object?_toPrimitive (h : Heap) (v : Value) : (h.toPrimitive v).object? = none := by
  cases v <;> rfl

theorem joinItems_eq (hm : h.Matches R P h') (separator : String) {vs vs' : List Value}
    (hvs : List.Forall₂ (Value.Matches R) vs vs') (first : Bool) (joined : String) :
    h.joinItems separator first vs joined = h'.joinItems separator first vs' joined := by
  induction hvs generalizing first joined with
  | nil => rfl
  | cons hv _ ih => simp only [joinItems, hm.maxString, hv.isNullish_eq, hm.display_eq hv, ih]

theorem join_eq (hm : h.Matches R P h') {a b : ObjectId} (hab : R a b) (separator : String) :
    h.join a separator = h'.join b separator := by
  have hrel := (hm.object a b hab).items?_rel
  simp only [join]
  generalize (h.object a).items? = xs, (h'.object b).items? = ys at hrel ⊢
  cases hrel with
  | some hitems => exact hm.joinItems_eq separator hitems true ""
  | none => rfl

/-! ## Properties -/

theorem isCallable_eq (hm : h.Matches R P h') (hv : v.Matches R v') :
    h.isCallable v = h'.isCallable v' := by
  cases hv with
  | object hr => exact (hm.object _ _ hr).isCallable_eq
  | primitive hv => cases v <;> first | rfl | exact nomatch hv

theorem typeOf_eq (hm : h.Matches R P h') (hv : v.Matches R v') : h.typeOf v = h'.typeOf v' := by
  cases hv with
  | object hr => simp only [typeOf, (hm.object _ _ hr).isCallable_eq]
  | primitive hv => cases v <;> first | rfl | exact nomatch hv

theorem getD_undefined {a b : Option Value} (hab : Option.Rel (Value.Matches R) a b) :
    (a.getD .undefined).Matches R (b.getD .undefined) := by
  cases hab with
  | some hv => exact hv
  | none => exact .primitive rfl

theorem propertyOf_matches {o o' : HeapObject} (ho : o.Matches R P o') (key : String) :
    (propertyOf o key).Matches R (propertyOf o' key) := by
  have hget := getD_undefined (ho.get?_rel key)
  have hrel := ho.items?_rel
  simp only [propertyOf]
  generalize o.items? = xs, o'.items? = ys at hrel ⊢
  cases hrel with
  | none => exact hget
  | some hitems =>
    dsimp only
    split
    · rw [hitems.size_eq]
      exact .primitive rfl
    · split
      · exact getD_undefined (hitems.getElem?_rel _)
      · exact hget

theorem object?_propertyOfText (s key : String) : (propertyOfText s key).object? = none := by
  unfold propertyOfText
  split
  · rfl
  · split <;> rfl

theorem property?_rel (hm : h.Matches R P h') (hv : v.Matches R v') (key : String) :
    Option.Rel (Value.Matches R) (h.property? v key) (h'.property? v' key) := by
  cases hv with
  | object hr => exact .some (propertyOf_matches (hm.object _ _ hr) key)
  | primitive hv =>
    cases v with
    | object => exact nomatch hv
    | string s => exact .some (.primitive (object?_propertyOfText s key))
    | bool | number => exact .some (.primitive rfl)
    | undefined | null => exact .none

theorem element?_rel (hm : h.Matches R P h') {a b : ObjectId} (hab : R a b)
    (hv : v.Matches R v') :
    Option.Rel (Value.Matches R) (h.element? a v) (h'.element? b v') := by
  have hrel := (hm.object a b hab).items?_rel
  simp only [element?]
  generalize (h.object a).items? = xs, (h'.object b).items? = ys at hrel ⊢
  cases hrel with
  | none => exact .none
  | some hitems =>
    have hindex (index : Option Nat) {xs ys : Array Value}
        (hxy : HeapObject.ItemsMatch R xs ys) :
        Option.Rel (Value.Matches R) (index.map fun i => xs[i]?.getD .undefined)
          (index.map fun i => ys[i]?.getD .undefined) := by
      cases index with
      | none => exact .none
      | some i => exact .some (getD_undefined (hxy.getElem?_rel i))
    cases hv with
    | object => exact .none
    | primitive => exact hindex _ hitems

theorem arrayMethod?_rel (hm : h.Matches R P h') (hv : v.Matches R v') (name : String) :
    Option.Rel (fun p q => R p.1 q.1 ∧ p.2 = q.2) (Run.arrayMethod? h v name)
      (Run.arrayMethod? h' v' name) := by
  cases hv with
  | object hr =>
    simp only [Run.arrayMethod?, isSome_eq (hm.object _ _ hr).items?_rel]
    split
    · cases Run.ArrayMethod.ofName? name with
      | none => exact .none
      | some method => exact .some ⟨hr, rfl⟩
    · exact .none
  | primitive hv => cases v <;> first | exact .none | exact nomatch hv

/-! ## Documents -/

theorem cloneItems_eq {clone clone' : Value → Cloning Json}
    (hclone : ∀ v v', v.Matches R v' → clone v = clone' v') {vs vs' : List Value}
    (hvs : List.Forall₂ (Value.Matches R) vs vs') (found : Array Json) :
    cloneItems clone found vs = cloneItems clone' found vs' := by
  induction hvs generalizing found with
  | nil => rfl
  | cons hv _ ih => simp only [cloneItems, hclone _ _ hv, ih]

theorem cloneMembers_eq {clone clone' : Value → Cloning Json}
    (hclone : ∀ v v', v.Matches R v' → clone v = clone' v') {t t' : Table Value}
    (ht : Table.Matches (Value.Matches R) t t') (found : List (String × Json)) :
    cloneMembers clone found t = cloneMembers clone' found t' := by
  induction ht generalizing found with
  | nil => rfl
  | @cons p q _ _ hp _ ih =>
    obtain ⟨key, v⟩ := p
    obtain ⟨_, v'⟩ := q
    obtain ⟨rfl, hv⟩ := hp
    have hundefined : (v = .undefined) = (v' = .undefined) := propext hv.undefined_iff
    simp only [cloneMembers, hundefined, hclone _ _ hv, ih]

theorem cloneObject_eq {clone clone' : Value → Cloning Json}
    (hclone : ∀ v v', v.Matches R v' → clone v = clone' v') {o o' : HeapObject}
    (ho : o.Matches R P o') : cloneObject clone o = cloneObject clone' o' := by
  obtain ⟨kind, properties⟩ := o
  obtain ⟨kind', properties'⟩ := o'
  obtain ⟨hkind, hprops⟩ := ho
  cases hkind with
  | array hitems => simp only [cloneObject, cloneItems_eq hclone hitems]
  | ordinary => simp only [cloneObject, cloneMembers_eq hclone hprops]
  | error => simp only [cloneObject, cloneMembers_eq hclone hprops]
  | _ => rfl

theorem cloneWithin_eq (hm : h.Matches R P h') (room : Nat) :
    ∀ v v', v.Matches R v' → h.cloneWithin room v = h'.cloneWithin room v' := by
  induction room with
  | zero => exact fun _ _ _ => rfl
  | succ room ih =>
    intro v v' hv
    cases hv with
    | object hr => simp only [cloneWithin, cloneCost, cloneObject_eq ih (hm.object _ _ hr)]
    | primitive hv => cases v <;> first | rfl | exact nomatch hv

theorem toJson_eq (hm : h.Matches R P h') (hv : v.Matches R v') : h.toJson v = h'.toJson v' := by
  simp only [toJson, hm.maxString, hm.cloneWithin_eq _ _ _ hv]

/-! ## Comparisons -/

theorem compare?_eq (hm : h.Matches R P h') (hv : v.Matches R v') (hu : u.Matches R u') :
    h.compare? v u = h'.compare? v' u' := by
  have hnv := hm.toNumber_eq (.primitive (object?_toPrimitive h' v'))
  have hnu := hm.toNumber_eq (.primitive (object?_toPrimitive h' u'))
  simp only [compare?, hm.toPrimitive_eq hv, hm.toPrimitive_eq hu]
  split
  · rfl
  · simp only [hnv, hnu]

theorem loosePrimitives_eq (hm : h.Matches R P h') : v.object? = none → u.object? = none →
    (match v, u with
      | .string s, .string t => s == t
      | a, b => h.toNumber a == h.toNumber b) =
    match v, u with
      | .string s, .string t => s == t
      | a, b => h'.toNumber a == h'.toNumber b := by
  intro hv hu
  split
  · rfl
  · rw [hm.toNumber_eq (.primitive hv), hm.toNumber_eq (.primitive hu)]

theorem looseEquals_eq (hm : h.Matches R P h') (hR : Relator.BiUnique R) (hv : v.Matches R v')
    (hu : u.Matches R u') : h.looseEquals v u = h'.looseEquals v' u' := by
  have htexts := hm.loosePrimitives_eq (object?_toPrimitive h' v') (object?_toPrimitive h' u')
  simp only [looseEquals, hv.isNullish_eq, hu.isNullish_eq, hm.toPrimitive_eq hv,
    hm.toPrimitive_eq hu]
  split
  · rfl
  · cases hv with
    | object hr =>
      cases hu with
      | object hs => exact Value.Matches.strictEquals_eq hR (.object hr) (.object hs)
      | primitive hnone =>
        cases u with
        | object => cases hnone
        | _ => exact htexts
    | primitive hnone =>
      cases v with
      | object => cases hnone
      | _ => cases hu <;> exact htexts

end Matches

end Heap

/-! ## Names -/

namespace Scopes

theorem innermost?_eq {α : Type} (s : Scopes) (f : Scope → Option α) (id : ScopeId) :
    s.innermost? f id = (s.get? id).bind fun scope =>
      match f scope with
      | some a => some (id, a)
      | none => scope.parent.bind (s.innermost? f) := by
  rw [innermost?]
  by_cases h : id < s.entries.size
  · have hget : s.get? id = some s.entries[id] := Array.getElem?_eq_getElem h
    rw [dif_pos h, hget, Option.bind_some]
    cases f s.entries[id] with
    | some a => rfl
    | none => dsimp only; split <;> simp [*]
  · have hget : s.get? id = none := Array.getElem?_eq_none (Nat.le_of_not_lt h)
    rw [dif_neg h, hget, Option.bind_none]

theorem parent_lt (s : Scopes) {id parent : ScopeId} {scope : Scope} (h : s.get? id = some scope)
    (hp : scope.parent = some parent) : parent < id := by
  obtain ⟨hlt, rfl⟩ := Array.getElem?_eq_some_iff.1 h
  exact s.outward id hlt parent hp

def Matches (R : ObjectId → ObjectId → Prop) (P : ScopeId → Prop) (s s' : Scopes) : Prop :=
  ∀ id, P id → Option.Rel (Scope.Matches R P) (s.get? id) (s'.get? id)

namespace Matches

variable {s s' : Scopes} {id : ScopeId}

theorem innermost?_rel {α β : Type} {T : α → β → Prop} {f : Scope → Option α}
    {g : Scope → Option β} (hs : s.Matches R P s')
    (hfg : ∀ c c', Scope.Matches R P c c' → Option.Rel T (f c) (g c')) (hid : P id) :
    Option.Rel (fun p q => p.1 = q.1 ∧ P p.1 ∧ T p.2 q.2) (s.innermost? f id)
      (s'.innermost? g id) := by
  induction id using Nat.strongRecOn with
  | ind id ih =>
    rw [innermost?_eq, innermost?_eq]
    have hrel := hs id hid
    cases hget : s.get? id with
    | none =>
      rw [hget] at hrel
      generalize s'.get? id = y at hrel ⊢
      cases hrel
      exact .none
    | some scope =>
      rw [hget] at hrel
      generalize s'.get? id = y at hrel ⊢
      cases hrel with
      | @some _ scope' hscope =>
        have hanswer := hfg scope scope' hscope
        rw [Option.bind_some, Option.bind_some, ← hscope.parent]
        generalize f scope = a, g scope' = b at hanswer ⊢
        cases hanswer with
        | some hab => exact .some ⟨rfl, hid, hab⟩
        | none =>
          cases hparent : scope.parent with
          | none => exact .none
          | some parent =>
            exact ih parent (s.parent_lt hget hparent) (hscope.around parent hparent)

theorem binding?_rel (hs : s.Matches R P s') (name : String) (hid : P id) :
    Option.Rel (fun p q => p.1 = q.1 ∧ P p.1 ∧ p.2.Matches R q.2) (s.binding? name id)
      (s'.binding? name id) :=
  hs.innermost?_rel (fun _ _ hc => hc.bindings.get?_rel name) hid

theorem lookup?_rel (hs : s.Matches R P s') (name : String) (hid : P id) :
    Option.Rel (Value.Matches R) (s.lookup? name id) (s'.lookup? name id) := by
  have hrel := hs.binding?_rel name hid
  simp only [lookup?]
  generalize s.binding? name id = x, s'.binding? name id = y at hrel ⊢
  cases hrel with
  | none => exact .none
  | some h => exact .some h.2.2.value

theorem variableScope_eq (hs : s.Matches R P s') (hid : P id) :
    s.variableScope id = s'.variableScope id ∧ P (s.variableScope id) := by
  have hrel := hs.innermost?_rel (T := fun _ _ => True)
    (f := fun scope => if scope.kind = .block then none else some ())
    (g := fun scope => if scope.kind = .block then none else some ())
    (fun c c' hc => by rw [hc.kind]; split <;> first | exact .none | exact .some trivial) hid
  simp only [variableScope]
  generalize s.innermost? _ id = x, s'.innermost? _ id = y at hrel ⊢
  cases hrel with
  | none => exact ⟨rfl, hid⟩
  | some h => exact ⟨h.1, h.2.1⟩

theorem kind?_eq (hs : s.Matches R P s') (hid : P id) : s.kind? id = s'.kind? id := by
  have hrel := hs id hid
  simp only [kind?]
  generalize s.get? id = x, s'.get? id = y at hrel ⊢
  cases hrel with
  | none => rfl
  | some hc => exact congrArg some hc.kind

theorem declares_eq (hs : s.Matches R P s') (name : String) (hid : P id) :
    s.declares id name = s'.declares id name := by
  have hrel := hs id hid
  simp only [declares]
  generalize s.get? id = x, s'.get? id = y at hrel ⊢
  cases hrel with
  | none => rfl
  | some hc => exact Heap.isSome_eq (hc.bindings.get?_rel name)

end Matches

end Scopes

end ScriptHost

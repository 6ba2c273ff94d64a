import ScriptHost.Proofs.Heap.Contents

/-!
Strings within a limit: as values, as literals of programs, in documents, in objects and in heaps.
-/

namespace ScriptHost

def Value.Fits (n : Nat) : Value → Prop
  | .string s => s.utf8ByteSize ≤ n
  | _ => True

namespace Source

mutual

inductive Expr.Fits (n : Nat) : Expr → Prop
  | number {x : Float} : Expr.Fits n (.number x)
  | string {s : String} : s.utf8ByteSize ≤ n → Expr.Fits n (.string s)
  | bool {b : Bool} : Expr.Fits n (.bool b)
  | null : Expr.Fits n .null
  | undefined : Expr.Fits n .undefined
  | this : Expr.Fits n .this
  | name {x : String} : Expr.Fits n (.name x)
  | array {items : List Expr} : (∀ e ∈ items, Expr.Fits n e) → Expr.Fits n (.array items)
  | object {entries : List (String × Expr)} :
      (∀ entry ∈ entries, Expr.Fits n entry.2) → Expr.Fits n (.object entries)
  | function {f : Function} : Function.Fits n f → Expr.Fits n (.function f)
  | unary {op : UnaryOp} {operand : Expr} :
      Expr.Fits n operand → Expr.Fits n (.unary op operand)
  | binary {op : BinaryOp} {left right : Expr} :
      Expr.Fits n left → Expr.Fits n right → Expr.Fits n (.binary op left right)
  | logical {op : LogicalOp} {left right : Expr} :
      Expr.Fits n left → Expr.Fits n right → Expr.Fits n (.logical op left right)
  | conditional {test consequent alternate : Expr} :
      Expr.Fits n test → Expr.Fits n consequent → Expr.Fits n alternate →
      Expr.Fits n (.conditional test consequent alternate)
  | assign {op : Option BinaryOp} {target value : Expr} :
      Expr.Fits n target → Expr.Fits n value → Expr.Fits n (.assign op target value)
  | update {increment before : Bool} {target : Expr} :
      Expr.Fits n target → Expr.Fits n (.update increment before target)
  | member {object : Expr} {property : String} :
      Expr.Fits n object → Expr.Fits n (.member object property)
  | index {object key : Expr} :
      Expr.Fits n object → Expr.Fits n key → Expr.Fits n (.index object key)
  | call {callee : Expr} {args : List Expr} :
      Expr.Fits n callee → (∀ e ∈ args, Expr.Fits n e) → Expr.Fits n (.call callee args)
  | construct {callee : Expr} {args : List Expr} :
      Expr.Fits n callee → (∀ e ∈ args, Expr.Fits n e) → Expr.Fits n (.construct callee args)

inductive StmtKind.Fits (n : Nat) : StmtKind → Prop
  | expression {e : Expr} : Expr.Fits n e → StmtKind.Fits n (.expression e)
  | declare {binder : Binder} {declarations : List (String × Option Expr)} :
      (∀ d ∈ declarations, ∀ e ∈ d.2, Expr.Fits n e) →
      StmtKind.Fits n (.declare binder declarations)
  | function {f : Function} : Function.Fits n f → StmtKind.Fits n (.function f)
  | block {body : List Stmt} : (∀ stmt ∈ body, Stmt.Fits n stmt) → StmtKind.Fits n (.block body)
  | branch {test : Expr} {consequent : Stmt} {alternate : Option Stmt} :
      Expr.Fits n test → Stmt.Fits n consequent → (∀ stmt ∈ alternate, Stmt.Fits n stmt) →
      StmtKind.Fits n (.branch test consequent alternate)
  | whileLoop {test : Expr} {body : Stmt} :
      Expr.Fits n test → Stmt.Fits n body → StmtKind.Fits n (.whileLoop test body)
  | doLoop {body : Stmt} {test : Expr} :
      Stmt.Fits n body → Expr.Fits n test → StmtKind.Fits n (.doLoop body test)
  | forLoop {init : Option Stmt} {test update : Option Expr} {body : Stmt} :
      (∀ stmt ∈ init, Stmt.Fits n stmt) → (∀ e ∈ test, Expr.Fits n e) →
      (∀ e ∈ update, Expr.Fits n e) → Stmt.Fits n body →
      StmtKind.Fits n (.forLoop init test update body)
  | breakOff : StmtKind.Fits n .breakOff
  | continueOn : StmtKind.Fits n .continueOn
  | returnWith {value : Option Expr} :
      (∀ e ∈ value, Expr.Fits n e) → StmtKind.Fits n (.returnWith value)
  | throwing {value : Expr} : Expr.Fits n value → StmtKind.Fits n (.throwing value)
  | attempt {block : List Stmt} {param : Option String} {handler finalizer : Option (List Stmt)} :
      (∀ stmt ∈ block, Stmt.Fits n stmt) →
      (∀ body ∈ handler, ∀ stmt ∈ body, Stmt.Fits n stmt) →
      (∀ body ∈ finalizer, ∀ stmt ∈ body, Stmt.Fits n stmt) →
      StmtKind.Fits n (.attempt block param handler finalizer)
  | empty : StmtKind.Fits n .empty

inductive Stmt.Fits (n : Nat) : Stmt → Prop
  | mk {line : Nat} {kind : StmtKind} : StmtKind.Fits n kind → Stmt.Fits n (.mk line kind)

inductive Function.Fits (n : Nat) : Function → Prop
  | mk {name : Option String} {params : List String} {body : List Stmt} :
      (∀ stmt ∈ body, Stmt.Fits n stmt) → Function.Fits n (.mk name params body)

end

end Source

inductive Json.Fits (n : Nat) : Json → Prop
  | null : Fits n .null
  | bool {b : Bool} : Fits n (.bool b)
  | integer {i : Int} : Fits n (.integer i)
  | real {x : Float} : Fits n (.real x)
  | text {s : String} : s.utf8ByteSize ≤ n → Fits n (.text s)
  | list {items : List Json} : (∀ item ∈ items, Fits n item) → Fits n (.list items)
  | object {members : List (String × Json)} :
      (∀ member ∈ members, Fits n member.2) → Fits n (.object members)

/-! ## Objects -/

theorem ErrorKind.utf8ByteSize_name (kind : ErrorKind) : kind.name.utf8ByteSize ≤ 64 := by
  cases kind <;> decide

theorem Table.mem_put {α : Type} {t : Table α} {key : String} {value : α} {p : String × α}
    (hp : p ∈ t.put key value) : p.2 = value ∨ p ∈ t := by
  induction t with
  | nil => exact .inl (congrArg Prod.snd (List.mem_singleton.1 hp))
  | cons first rest ih =>
      obtain ⟨k, old⟩ := first
      rw [put] at hp
      split at hp
      · rcases List.mem_cons.1 hp with rfl | hp
        · exact .inl rfl
        · exact .inr (List.mem_cons_of_mem _ hp)
      · rcases List.mem_cons.1 hp with rfl | hp
        · exact .inr List.mem_cons_self
        · exact (ih hp).imp_right (List.mem_cons_of_mem _)

theorem Table.mem_of_get? {α : Type} {t : Table α} {key : String} {value : α}
    (h : t.get? key = some value) : (key, value) ∈ t := by
  induction t with
  | nil => exact nomatch h
  | cons first rest ih =>
      obtain ⟨k, a⟩ := first
      rw [get?] at h
      split at h
      · next hk => exact hk ▸ Option.some.inj h ▸ List.mem_cons_self
      · exact List.mem_cons_of_mem _ (ih h)

namespace HeapObject

/-- Functions hold the literals of their code. -/
structure Fits (n : Nat) (o : HeapObject) : Prop where
  items : ∀ v ∈ o.items, v.Fits n
  properties : ∀ p ∈ o.properties, p.2.Fits n
  code : ∀ f closure, o.kind = .function f closure → f.Fits n

variable {n : Nat} {o : HeapObject}

theorem fits_ordinary {properties : Table Value} (h : ∀ p ∈ properties, p.2.Fits n) :
    (⟨.ordinary, properties⟩ : HeapObject).Fits n :=
  ⟨List.forall_mem_nil _, h, nofun⟩

theorem fits_array {items : Array Value} (h : ∀ v ∈ items.toList, v.Fits n) :
    (⟨.array items, []⟩ : HeapObject).Fits n :=
  ⟨h, List.forall_mem_nil _, nofun⟩

theorem fits_native (function : Native) : (⟨.native function, []⟩ : HeapObject).Fits n :=
  ⟨List.forall_mem_nil _, List.forall_mem_nil _, nofun⟩

theorem fits_function {code : Source.Function} (h : code.Fits n) (closure : ScopeId) :
    (⟨.function code closure, []⟩ : HeapObject).Fits n := by
  refine ⟨List.forall_mem_nil _, List.forall_mem_nil _, fun f closure heq => ?_⟩
  obtain ⟨rfl, -⟩ := ObjectKind.function.inj heq
  exact h

theorem Fits.put (ho : o.Fits n) (key : String) {value : Value} (hv : value.Fits n) :
    (o.put key value).Fits n := by
  refine ⟨ho.items, fun p hp => ?_, ho.code⟩
  rcases Table.mem_put hp with heq | hp
  · exact heq ▸ hv
  · exact ho.properties p hp

theorem Fits.mapItems (ho : o.Fits n) {f : Array Value → Array Value}
    (hf : ∀ items : Array Value, (∀ v ∈ items.toList, v.Fits n) → ∀ v ∈ (f items).toList, v.Fits n) :
    (o.mapItems f).Fits n := by
  obtain ⟨kind, properties⟩ := o
  cases kind with
  | array items => exact ⟨hf items ho.items, ho.properties, nofun⟩
  | _ => exact ho

theorem Fits.get? (ho : o.Fits n) {key : String} {v : Value} (hv : o.get? key = some v) :
    v.Fits n :=
  ho.properties _ (Table.mem_of_get? hv)

theorem Fits.of_items? (ho : o.Fits n) {items : Array Value} (h : o.items? = some items) :
    ∀ v ∈ items.toList, v.Fits n := by
  obtain ⟨kind, properties⟩ := o
  cases kind with
  | array => exact Option.some.inj h ▸ ho.items
  | _ => exact nomatch h

theorem Fits.getElem? (ho : o.Fits n) {items : Array Value} (h : o.items? = some items)
    (i : Nat) : (items[i]?.getD .undefined).Fits n := by
  cases hi : items[i]? with
  | none => exact trivial
  | some v => exact ho.of_items? h v (Array.mem_toList_iff.2 (Array.mem_of_getElem? hi))

end HeapObject

/-- What is written is within the limit. -/
def Heap.Write.Fits (n : Nat) : Heap.Write → Prop
  | property _ value => value.Fits n
  | element _ value => value.Fits n
  | push values => ∀ v ∈ values, v.Fits n
  | resize _ => True
  | pop => True

namespace HeapObject

variable {n : Nat} {o : HeapObject}

theorem fits_padded {items : Array Value} (hitems : ∀ v ∈ items.toList, v.Fits n) (size : Nat) :
    ∀ v ∈ (Heap.padded items size).toList, v.Fits n := by
  intro v hv
  rw [Heap.toList_padded] at hv
  rcases List.mem_append.1 hv with hv | hv
  · exact hitems v hv
  · rw [List.eq_of_mem_replicate hv]
    exact trivial

theorem Fits.change (ho : o.Fits n) {w : Heap.Write} (hw : w.Fits n) : (w.change o).Fits n := by
  cases w with
  | property key value => exact ho.put key hw
  | element index value =>
      refine ho.mapItems fun items hitems v hv => ?_
      rw [Array.toList_setIfInBounds] at hv
      rcases List.mem_or_eq_of_mem_set hv with hv | rfl
      · exact fits_padded hitems _ v hv
      · exact hw
  | resize size =>
      refine ho.mapItems fun items hitems v hv => ?_
      have hv : v ∈ (Heap.padded items size).toList.take size := by simpa using hv
      exact fits_padded hitems _ v (List.mem_of_mem_take hv)
  | push values =>
      refine ho.mapItems fun items hitems v hv => ?_
      rw [Array.toList_appendList] at hv
      exact (List.mem_append.1 hv).elim (hitems v) (hw v)
  | pop =>
      refine ho.mapItems fun items hitems v hv => ?_
      rw [Array.toList_pop] at hv
      exact hitems v ((List.dropLast_sublist _).subset hv)

end HeapObject

/-! ## Heaps -/

namespace Heap

variable {n : Nat} {h : Heap} {id : ObjectId} {o : HeapObject} {α β : Type} {Q : α → Prop}
  {R : β → Prop}

/-- The limit of the heap on strings may be lower. -/
structure Fits (n : Nat) (h : Heap) : Prop where
  limit : h.maxString ≤ n
  contents : h.All fun _ o => o.Fits n

theorem Fits.object (hh : h.Fits n) (id : ObjectId) : (h.object id).Fits n :=
  (hh.contents.object id).elim fun _ ho => ho

theorem Fits.allocateHost (hh : h.Fits n) (ho : o.Fits n) : (h.allocateHost o).2.Fits n :=
  ⟨(h.alike_place o o.slots).maxString ▸ hh.limit, hh.contents.allocateHost ho⟩

theorem Fits.allocate (hh : h.Fits n) (ho : o.Fits n) : (left (allocate o) h).Fits n := by
  refine ⟨?_, hh.contents.allocate fun _ => ho⟩
  rcases hh.contents.sound.allocate_cases o with hno | ⟨id, k, hok, -, halike⟩
  · rw [left, hno]
    exact hh.limit
  · rw [left, hok]
    exact halike.maxString ▸ hh.limit

theorem maxString_update (h : Heap) (id : ObjectId) (f : HeapObject → HeapObject) :
    (h.update id f).maxString = h.maxString := by
  unfold update
  split <;> rfl

theorem Fits.write (hh : h.Fits n) {w : Write} (hw : w.Fits n) (id : ObjectId) :
    (left (w.step id) h).Fits n := by
  refine ⟨?_, hh.contents.write w id fun _ _ ho => ho.change hw⟩
  rcases w.step_result id h with hno | ⟨hok, -⟩
  · rw [left, hno]
    exact hh.limit
  · rw [left, hok]
    exact (h.maxString_update id w.change) ▸ hh.limit

/-- The heap stays within the limit, and so does what the step makes. -/
def Keeps (n : Nat) (Q : α → Prop) (x : Step α) : Prop :=
  ∀ h, h.Fits n → (left x h).Fits n ∧ ∀ a k, x h = .ok a k → Q a

namespace Keeps

theorem pure {a : α} (ha : Q a) : Keeps n Q (pure a) := by
  refine fun h hh => ⟨hh, fun b k hok => ?_⟩
  obtain ⟨rfl, -⟩ := EStateM.Result.ok.inj hok
  exact ha

theorem bind {x : Step α} {f : α → Step β} (hx : Keeps n Q x)
    (hf : ∀ a, Q a → Keeps n R (f a)) : Keeps n R (x >>= f) := by
  intro h hh
  obtain ⟨hleft, hmade⟩ := hx h hh
  simp only [left, Bind.bind, EStateM.bind] at hleft ⊢
  cases hstep : x h with
  | ok a k =>
      rw [hstep] at hleft
      exact hf a (hmade a k hstep) k hleft
  | error reason k =>
      rw [hstep] at hleft
      refine ⟨hleft, fun b k hok => ?_⟩
      cases hok

theorem map {x : Step α} {f : α → β} (hx : Keeps n Q x) (hf : ∀ a, Q a → R (f a)) :
    Keeps n R (f <$> x) := by
  rw [map_eq_pure_bind]
  exact hx.bind fun a ha => .pure (hf a ha)

theorem get : Keeps n (Heap.Fits n) (get : Step Heap) := by
  refine fun h hh => ⟨hh, fun g k hok => ?_⟩
  obtain ⟨rfl, -⟩ := EStateM.Result.ok.inj hok
  exact hh

theorem of_left {x : Step α} (hx : ∀ h, h.Fits n → (left x h).Fits n) :
    Keeps n (fun _ => True) x :=
  fun h hh => ⟨hx h hh, fun _ _ _ => trivial⟩

theorem allocate (ho : o.Fits n) : Keeps n (fun _ => True) (allocate o) :=
  of_left fun _ hh => hh.allocate ho

theorem allocateHost (ho : o.Fits n) :
    Keeps n (fun _ => True) (modifyGet fun h => h.allocateHost o : Step ObjectId) :=
  of_left fun _ hh => hh.allocateHost ho

theorem write {x : Step α} (w : Write) (hw : w.Fits n)
    (hx : ∀ h, left x h = left (w.step id) h) : Keeps n (fun _ => True) x :=
  of_left fun h hh => hx h ▸ hh.write hw id

theorem pushElements {values : List Value} (hvs : ∀ v ∈ values, v.Fits n) :
    Keeps n (fun _ => True) (pushElements id values) :=
  write (.push values) hvs fun h => (left_discard _ h).symm

theorem popElement (id : ObjectId) : Keeps n (Value.Fits n) (popElement id) := by
  intro h hh
  have hleft : left (Heap.popElement id) h = left (Write.pop.step id) h := (left_discard _ h).symm
  refine ⟨hleft ▸ hh.write (w := .pop) trivial id, fun v k hok => ?_⟩
  simp only [Heap.popElement, bind_get] at hok
  cases hlast : (h.object id).items?.bind Array.back? with
  | none =>
      rw [hlast] at hok
      obtain ⟨rfl, -⟩ := EStateM.Result.ok.inj hok
      exact trivial
  | some last =>
      rw [hlast] at hok
      obtain ⟨rfl, -⟩ := EStateM.Result.ok.inj hok
      obtain ⟨items, hitems, hlast⟩ := Option.bind_eq_some_iff.1 hlast
      exact (hh.object id).of_items? hitems _ (Array.mem_toList_iff.2 (Array.mem_of_back? hlast))

theorem writeProperty (id : ObjectId) (key : String) {value : Value} (hv : value.Fits n) :
    Keeps n (fun _ => True) (writeProperty id key value) := by
  have hset : Keeps n (fun _ => True) (do setProperty id key value; Pure.pure true : Step Bool) :=
    (write (.property key value) hv fun _ => rfl).bind fun _ _ => pure trivial
  have hrefuse : Keeps n (fun _ => True) (Pure.pure false : Step Bool) := pure trivial
  refine get.bind fun h hh => ?_
  cases (h.object id).items? with
  | none => exact hset
  | some items =>
      dsimp only
      split
      · split
        · split
          · exact (write (.resize _) trivial fun _ => rfl).bind fun _ _ => pure trivial
          · exact hrefuse
        · exact hrefuse
      · split
        · split
          · exact (write (.element _ value) hv fun _ => rfl).bind fun _ _ => pure trivial
          · exact hrefuse
        · exact hset

end Keeps

/-! ## Properties -/

theorem fits_errorObject (hn : 64 ≤ n) {kind : ErrorKind} {message : String}
    (hmessage : message.utf8ByteSize ≤ n) : (errorObject kind message).Fits n := by
  refine ⟨List.forall_mem_nil _, ?_, nofun⟩
  refine List.forall_mem_cons.2 ⟨?_, List.forall_mem_singleton.2 hmessage⟩
  exact Nat.le_trans kind.utf8ByteSize_name hn

theorem fits_propertyOf (ho : o.Fits n) (key : String) : (propertyOf o key).Fits n := by
  have hnamed : ((o.get? key).getD .undefined).Fits n := by
    cases hget : o.get? key with
    | none => exact trivial
    | some v => exact ho.get? hget
  unfold propertyOf
  split
  · exact hnamed
  · next hitems =>
    split
    · exact trivial
    · split
      · exact ho.getElem? hitems _
      · exact hnamed

/-- A character takes four bytes at most. -/
theorem fits_propertyOfText (hn : 64 ≤ n) (s key : String) : (propertyOfText s key).Fits n := by
  unfold propertyOfText
  split
  · exact trivial
  · split
    · next c _ =>
      have hchar : (String.ofList [c]).utf8ByteSize = c.utf8Size := by simp
      have hsize := c.utf8Size_le_four
      rw [Value.Fits, hchar]
      omega
    · exact trivial

theorem fits_typeOf (hn : 64 ≤ n) (h : Heap) (v : Value) :
    (Value.string (h.typeOf v)).Fits n := by
  refine Nat.le_trans ?_ hn
  cases v with
  | object id =>
      rw [typeOf]
      split <;> decide
  | _ => exact Nat.le_of_ble_eq_true rfl

theorem Fits.property? (hh : h.Fits n) (hn : 64 ≤ n) {base v : Value} {key : String}
    (hv : h.property? base key = some v) : v.Fits n := by
  cases base with
  | object id => exact Option.some.inj hv ▸ fits_propertyOf (hh.object id) key
  | string s => exact Option.some.inj hv ▸ fits_propertyOfText hn s key
  | undefined | null => exact nomatch hv
  | bool | number => exact Option.some.inj hv ▸ trivial

theorem Fits.element? (hh : h.Fits n) {key v : Value} (hv : h.element? id key = some v) :
    v.Fits n := by
  unfold Heap.element? at hv
  split at hv
  · exact nomatch hv
  · next hitems =>
    obtain ⟨index, -, rfl⟩ := Option.map_eq_some_iff.1 hv
    exact (hh.object id).getElem? hitems index

/-! ## Documents and events -/

section Documents

mutual

theorem keeps_fromJson {json : Json} (hj : json.Fits n) : Keeps n (Value.Fits n) (fromJson json) := by
  cases hj with
  | text hs => exact .pure hs
  | list hitems =>
      refine (keeps_fromItems (List.forall_mem_nil _) hitems).bind fun values hvalues => ?_
      exact (Keeps.allocate (HeapObject.fits_array hvalues)).map fun _ _ => trivial
  | object hmembers =>
      refine (keeps_fromMembers (List.forall_mem_nil _) hmembers).bind fun found hfound => ?_
      exact (Keeps.allocate (HeapObject.fits_ordinary hfound)).map fun _ _ => trivial
  | _ => exact .pure trivial

theorem keeps_fromItems {found : Array Value} (hfound : ∀ v ∈ found.toList, v.Fits n)
    {items : List Json} (hitems : ∀ item ∈ items, item.Fits n) :
    Keeps n (fun values => ∀ v ∈ values.toList, v.Fits n) (fromItems found items) := by
  cases items with
  | nil => exact .pure hfound
  | cons item rest =>
      obtain ⟨hitem, hrest⟩ := List.forall_mem_cons.1 hitems
      refine (keeps_fromJson hitem).bind fun v hv => keeps_fromItems ?_ hrest
      rw [Array.toList_push]
      exact List.forall_mem_append.2 ⟨hfound, List.forall_mem_singleton.2 hv⟩

theorem keeps_fromMembers {found : Array (String × Value)}
    (hfound : ∀ p ∈ found.toList, p.2.Fits n) {members : List (String × Json)}
    (hmembers : ∀ member ∈ members, member.2.Fits n) :
    Keeps n (fun properties => ∀ p ∈ properties.toList, p.2.Fits n)
      (fromMembers found members) := by
  cases members with
  | nil => exact .pure hfound
  | cons member rest =>
      obtain ⟨key, item⟩ := member
      obtain ⟨hitem, hrest⟩ := List.forall_mem_cons.1 hmembers
      refine (keeps_fromJson hitem).bind fun v hv => keeps_fromMembers ?_ hrest
      rw [Array.toList_push]
      exact List.forall_mem_append.2 ⟨hfound, List.forall_mem_singleton.2 hv⟩

end

end Documents

theorem keeps_messageEvent {data : Option Json} (hdata : ∀ json ∈ data, json.Fits n) :
    Keeps n (Value.Fits n) (Environment.messageEvent data) := by
  have hevent {v : Value} (hv : v.Fits n) :
      Keeps n (Value.Fits n) (Value.object <$> allocate ⟨.ordinary, [("data", v)]⟩) :=
    (Keeps.allocate (HeapObject.fits_ordinary (List.forall_mem_singleton.2 hv))).map
      fun _ _ => trivial
  cases data with
  | none => exact hevent (v := .null) trivial
  | some json => exact (keeps_fromJson (hdata json rfl)).bind fun _ hv => hevent hv

theorem keeps_connectEvent (port : Nat) :
    Keeps n (Value.Fits n) (Environment.connectEvent port) := by
  refine (Keeps.allocateHost (HeapObject.fits_native _)).bind fun post _ => ?_
  refine (Keeps.allocateHost (HeapObject.fits_ordinary ?_)).bind fun port _ => ?_
  · exact List.forall_mem_singleton.2 trivial
  refine (Keeps.allocate (HeapObject.fits_array ?_)).bind fun ports _ => ?_
  · exact List.forall_mem_singleton.2 trivial
  refine (Keeps.allocate (HeapObject.fits_ordinary ?_)).map fun _ _ => trivial
  exact List.forall_mem_cons.2 ⟨trivial, List.forall_mem_singleton.2 trivial⟩

end Heap

end ScriptHost

import ScriptHost.Proofs.Heap.Upholding
import ScriptHost.Proofs.Source.Enclosure

/-!
Heaps of functions that leave only loops of their own. Objects are changed in what they hold, and
never in the code of a function.
-/

namespace ScriptHost

def ObjectKind.isScripted : ObjectKind → Bool
  | .function _ _ => true
  | _ => false

def HeapObject.Enclosed (o : HeapObject) : Prop :=
  ∀ code closure, o.kind = .function code closure → code.Enclosed

namespace HeapObject

variable {o : HeapObject}

theorem Enclosed.plain (h : o.kind.isScripted = false) : o.Enclosed := by
  intro code closure hkind
  rw [hkind] at h
  cases h

theorem enclosed_function {code : Source.Function} (h : code.Enclosed) (closure : ScopeId) :
    (⟨.function code closure, []⟩ : HeapObject).Enclosed := by
  intro f scope heq
  obtain ⟨rfl, -⟩ := ObjectKind.function.inj heq
  exact h

theorem Enclosed.mapItems (ho : o.Enclosed) (f : Array Value → Array Value) :
    (o.mapItems f).Enclosed := by
  obtain ⟨kind, properties⟩ := o
  cases kind with
  | array items => exact .plain rfl
  | _ => exact ho

theorem Enclosed.change (ho : o.Enclosed) (w : Heap.Write) : (w.change o).Enclosed := by
  cases w with
  | property key value => exact ho
  | element | resize | push | pop => exact ho.mapItems _

end HeapObject

namespace Heap

variable {h : Heap} {o : HeapObject} {α β : Type}

def Enclosed (h : Heap) : Prop :=
  h.All fun _ o => o.Enclosed

theorem Enclosed.object (hh : h.Enclosed) (id : ObjectId) : (h.object id).Enclosed :=
  (All.object hh id).elim fun _ ho => ho

/-- Enclosed heaps stay enclosed. -/
def Guards (x : Step α) : Prop :=
  ∀ h : Heap, h.Enclosed → (left x h).Enclosed

namespace Guards

theorem pure (a : α) : Guards (pure a) :=
  Upholds.pure a

theorem bind {x : Step α} {f : α → Step β} (hx : Guards x) (hf : ∀ a, Guards (f a)) :
    Guards (x >>= f) :=
  Upholds.bind hx hf

theorem map {x : Step α} (hx : Guards x) (f : α → β) : Guards (f <$> x) :=
  Upholds.map hx f

theorem allocate (ho : o.Enclosed) : Guards (allocate o) :=
  Upholds.allocate ho

theorem allocateError (kind : ErrorKind) (message : String) :
    Guards (allocateError kind message) :=
  Upholds.allocateError (.plain rfl)

theorem setProperty (id : ObjectId) (key : String) (value : Value) :
    Guards (setProperty id key value) :=
  Upholds.setProperty (fun _ w ho => ho.change w) id key value

theorem pushElements (id : ObjectId) (values : List Value) : Guards (pushElements id values) :=
  Upholds.pushElements (fun _ w ho => ho.change w) id values

theorem popElement (id : ObjectId) : Guards (popElement id) :=
  Upholds.popElement (fun _ w ho => ho.change w) id

theorem writeProperty (id : ObjectId) (key : String) (value : Value) :
    Guards (writeProperty id key value) :=
  Upholds.writeProperty (fun _ w ho => ho.change w) id key value

mutual

theorem fromJson : (json : Json) → Guards (fromJson json)
  | .null | .bool _ | .integer _ | .real _ | .text _ => pure _
  | .list items => (fromItems #[] items).bind fun values =>
      (allocate (o := ⟨.array values, []⟩) (.plain rfl)).map _
  | .object members => (fromMembers #[] members).bind fun properties =>
      (allocate (o := ⟨.ordinary, properties.toList⟩) (.plain rfl)).map _

theorem fromItems (found : Array Value) : (items : List Json) → Guards (fromItems found items)
  | [] => pure _
  | item :: rest => (fromJson item).bind fun _ => fromItems _ rest

theorem fromMembers (found : Array (String × Value)) :
    (members : List (String × Json)) → Guards (fromMembers found members)
  | [] => pure _
  | (_, item) :: rest => (fromJson item).bind fun _ => fromMembers _ rest

end

theorem messageEvent (data : Option Json) : Guards (Environment.messageEvent data) :=
  Upholds.messageEvent (fun json _ => fromJson json) fun _ => .plain rfl

theorem connectEvent (port : Nat) : Guards (Environment.connectEvent port) :=
  Upholds.connectEvent port (.plain rfl) (fun _ => .plain rfl) (fun _ => .plain rfl)
    fun _ _ => .plain rfl

end Guards

end Heap

end ScriptHost

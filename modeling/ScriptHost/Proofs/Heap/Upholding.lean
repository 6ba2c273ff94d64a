import ScriptHost.Environment
import ScriptHost.Proofs.Heap.Contents

/-!
Properties that every object of a heap has before a step and after it.
-/

namespace ScriptHost.Heap

variable {α β : Type} {P : HeapObject → Prop}

def Upholds (P : HeapObject → Prop) (x : Step α) : Prop :=
  ∀ h : Heap, (h.All fun _ o => P o) → (left x h).All fun _ o => P o

namespace Upholds

theorem pure (a : α) : Upholds P (pure a) :=
  fun _ hh => hh

theorem bind {x : Step α} {f : α → Step β} (hx : Upholds P x) (hf : ∀ a, Upholds P (f a)) :
    Upholds P (x >>= f) :=
  fun h hh => left_bind (P := fun h => h.All fun _ o => P o) (hx h hh) fun a k hk => hf a k hk

theorem map {x : Step α} (hx : Upholds P x) (f : α → β) : Upholds P (f <$> x) :=
  fun h hh => left_map f x h ▸ hx h hh

theorem bindGet {f : Heap → Step α} (hf : ∀ h, Upholds P (f h)) : Upholds P (get >>= f) :=
  bind (fun _ hh => hh) hf

theorem allocate {o : HeapObject} (ho : P o) : Upholds P (allocate o) :=
  fun _ hh => All.allocate hh fun _ => ho

theorem allocateHost {o : HeapObject} (ho : P o) :
    Upholds P (modifyGet fun h => h.allocateHost o : Step ObjectId) :=
  fun _ hh => All.allocateHost hh ho

theorem allocateError {kind : ErrorKind} {message : String} (h : P (errorObject kind message)) :
    Upholds P (allocateError kind message) :=
  (allocate h).map _

/-! ## Writes -/

section Writes

variable (hP : ∀ o (w : Write), P o → P (w.change o))

include hP

theorem write {x : Step α} (w : Write) (id : ObjectId) (hx : ∀ h, left x h = left (w.step id) h) :
    Upholds P x :=
  fun h hh => hx h ▸ All.write hh w id fun _ o => hP o w

theorem setProperty (id : ObjectId) (key : String) (value : Value) :
    Upholds P (setProperty id key value) :=
  write hP (.property key value) id fun _ => rfl

theorem pushElements (id : ObjectId) (values : List Value) : Upholds P (pushElements id values) :=
  write hP (.push values) id fun h => (left_discard _ h).symm

theorem popElement (id : ObjectId) : Upholds P (popElement id) :=
  write hP .pop id fun h => (left_discard _ h).symm

theorem writeProperty (id : ObjectId) (key : String) (value : Value) :
    Upholds P (writeProperty id key value) := by
  have hset : Upholds P (do Heap.setProperty id key value; Pure.pure true : Step Bool) :=
    (setProperty hP id key value).bind fun _ => pure true
  refine bindGet fun h => ?_
  cases (h.object id).items? with
  | none => exact hset
  | some items =>
    dsimp only
    split
    · split
      · split
        · exact (write hP (.resize _) id fun _ => rfl).bind fun _ => pure true
        · exact pure false
      · exact pure false
    · split
      · split
        · exact (write hP (.element _ value) id fun _ => rfl).bind fun _ => pure true
        · exact pure false
      · exact hset

end Writes

/-! ## Events -/

theorem messageEvent {data : Option Json} (hdata : ∀ json ∈ data, Upholds P (fromJson json))
    (hevent : ∀ v, P ⟨.ordinary, [("data", v)]⟩) : Upholds P (Environment.messageEvent data) := by
  have hmade (v : Value) : Upholds P (Value.object <$> Heap.allocate ⟨.ordinary, [("data", v)]⟩) :=
    (allocate (hevent v)).map _
  cases data with
  | none => exact hmade .null
  | some json => exact (hdata json rfl).bind hmade

theorem connectEvent (port : Nat) (hpost : P ⟨.native (.portPostMessage port), []⟩)
    (hport : ∀ v, P ⟨.ordinary, [("postMessage", v)]⟩) (hports : ∀ v, P ⟨.array #[v], []⟩)
    (hevent : ∀ v v', P ⟨.ordinary, [("ports", v), ("source", v')]⟩) :
    Upholds P (Environment.connectEvent port) := by
  refine (allocateHost hpost).bind fun post => (allocateHost (hport _)).bind fun port => ?_
  exact (allocate (hports _)).bind fun ports => (allocate (hevent _ _)).map _

end Upholds

end ScriptHost.Heap

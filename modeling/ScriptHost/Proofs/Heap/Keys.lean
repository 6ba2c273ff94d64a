import ScriptHost.Proofs.Heap.Upholding
import ScriptHost.Proofs.Json.Lengths
import ScriptHost.Proofs.Run.Rules

/-!
No object has two properties of one name, wherever its properties come from.
-/

namespace ScriptHost

def HeapObject.Distinct (o : HeapObject) : Prop :=
  o.properties.keys.Nodup

namespace HeapObject

variable {o : HeapObject}

theorem distinct_bare (kind : ObjectKind) : (⟨kind, []⟩ : HeapObject).Distinct :=
  List.nodup_nil

theorem Distinct.put (ho : o.Distinct) (key : String) (value : Value) :
    (o.put key value).Distinct :=
  Table.nodup_put ho key value

theorem Distinct.mapItems (ho : o.Distinct) (f : Array Value → Array Value) :
    (o.mapItems f).Distinct := by
  obtain ⟨kind, properties⟩ := o
  cases kind with
  | array items => exact ho
  | _ => exact ho

theorem Distinct.change (ho : o.Distinct) (w : Heap.Write) : (w.change o).Distinct := by
  cases w with
  | property key value => exact ho.put key value
  | element | resize | push | pop => exact ho.mapItems _

theorem distinct_error (kind : ErrorKind) (message : String) :
    (Heap.errorObject kind message).Distinct := by
  show ["name", "message"].Nodup
  decide

end HeapObject

namespace Heap

variable {k : Nat}

def Distinct (h : Heap) : Prop :=
  h.All fun _ o => o.Distinct

theorem Distinct.object {h : Heap} (hh : h.Distinct) (id : ObjectId) : (h.object id).Distinct :=
  (All.object hh id).elim fun _ ho => ho

theorem upholds_allocateError (kind : ErrorKind) (message : String) :
    Upholds HeapObject.Distinct (allocateError kind message) :=
  .allocateError (HeapObject.distinct_error kind message)

/-! ## Documents -/

theorem keys_push (found : Array (String × Value)) (key : String) (value : Value) :
    Table.keys (found.push (key, value)).toList = Table.keys found.toList ++ [key] := by
  simp [Table.keys]

theorem nodup_ascending {members : List (String × Json)} (h : Json.Ascending members) :
    (members.map Prod.fst).Nodup := by
  rw [List.Nodup, List.pairwise_map]
  exact h.imp fun hlt => String.ne_of_lt hlt

mutual

theorem upholds_fromJson {json : Json} (hj : json.Written k) :
    Upholds HeapObject.Distinct (fromJson json) := by
  cases hj with
  | list hitems =>
    refine (upholds_fromItems #[] hitems).bind fun values => ?_
    exact (Upholds.allocate (HeapObject.distinct_bare _)).map _
  | object hkeys hmembers =>
    refine upholds_bindMembers #[] hmembers fun properties hproperties => ?_
    have hdistinct : (⟨.ordinary, properties.toList⟩ : HeapObject).Distinct := by
      rw [HeapObject.Distinct, hproperties]
      exact nodup_ascending hkeys
    exact (Upholds.allocate hdistinct).map _
  | _ => exact .pure _

theorem upholds_fromItems (found : Array Value) {items : List Json}
    (hitems : ∀ item ∈ items, item.Written k) :
    Upholds HeapObject.Distinct (fromItems found items) := by
  cases items with
  | nil => exact .pure found
  | cons item rest =>
    obtain ⟨hitem, hrest⟩ := List.forall_mem_cons.1 hitems
    exact (upholds_fromJson hitem).bind fun v => upholds_fromItems (found.push v) hrest

/-- The properties have the names of the members, in the same order. -/
theorem upholds_bindMembers {β : Type} (found : Array (String × Value))
    {members : List (String × Json)} (hmembers : ∀ member ∈ members, member.2.Written k)
    {f : Array (String × Value) → Step β}
    (hf : ∀ properties : Array (String × Value),
      Table.keys properties.toList = Table.keys found.toList ++ members.map Prod.fst →
      Upholds HeapObject.Distinct (f properties)) :
    Upholds HeapObject.Distinct (fromMembers found members >>= f) := by
  cases members with
  | nil => exact hf found (List.append_nil _).symm
  | cons member rest =>
    obtain ⟨key, item⟩ := member
    obtain ⟨hitem, hrest⟩ := List.forall_mem_cons.1 hmembers
    simp only [fromMembers, bind_assoc]
    refine (upholds_fromJson hitem).bind fun v => ?_
    refine upholds_bindMembers (found.push (key, v)) hrest fun properties hproperties => ?_
    refine hf properties ?_
    rw [hproperties, keys_push, List.append_assoc]
    rfl

end

/-! ## Steps of scripts -/

theorem upholds_scripted {α : Type} {step : Step α} (h : Scripted step) :
    Upholds HeapObject.Distinct step := by
  have hchange (o : HeapObject) (w : Write) (ho : o.Distinct) : (w.change o).Distinct := ho.change w
  cases h with
  | allocateError kind message => exact upholds_allocateError kind message
  | function | array => exact .allocate (HeapObject.distinct_bare _)
  | ordinary hproperties => exact .allocate hproperties
  | setProperty id key value => exact .setProperty hchange id key value
  | writeProperty id key value => exact .writeProperty hchange id key value
  | pushElements id values => exact .pushElements hchange id values
  | popElement id => exact .popElement hchange id
  | fromJson hjson => exact upholds_fromJson (Json.written_ofBytes hjson (Nat.le_refl _))

theorem upholds_messageEvent {data : Option Json}
    (hdata : ∀ json ∈ data, ∃ payload, Json.ofBytes payload = .ok json) :
    Upholds HeapObject.Distinct (Environment.messageEvent data) := by
  refine .messageEvent (fun json hjson => ?_) fun v => List.nodup_singleton "data"
  obtain ⟨payload, hpayload⟩ := hdata json hjson
  exact upholds_scripted (.fromJson hpayload)

theorem upholds_connectEvent (port : Nat) :
    Upholds HeapObject.Distinct (Environment.connectEvent port) := by
  have hevent : ["ports", "source"].Nodup := by decide
  exact .connectEvent port (HeapObject.distinct_bare _)
    (fun v => List.nodup_singleton "postMessage") (fun v => HeapObject.distinct_bare _)
    fun v v' => hevent

end Heap

end ScriptHost

import ScriptHost.Proofs.Heap.Cloning
import ScriptHost.Proofs.Heap.Reachability
import ScriptHost.Proofs.Json.Documents

/-!
Documents brought into a heap are written back as they were, but for the way their numbers are
written.
-/

namespace ScriptHost.Heap

open Json (Document)

/-! ## Growing heaps -/

/-- Whatever was there is still there. -/
structure Extends (h k : Heap) : Prop where
  sound : k.Sound
  kept : ∀ id o, h.find? id = some o → k.find? id = some o
  maxString : k.maxString = h.maxString

theorem Extends.refl {h : Heap} (hs : h.Sound) : h.Extends h :=
  ⟨hs, fun _ _ => id, rfl⟩

theorem Extends.trans {h k l : Heap} (hk : h.Extends k) (hl : k.Extends l) : h.Extends l :=
  ⟨hl.sound, fun id o ho => hl.kept id o (hk.kept id o ho), hl.maxString.trans hk.maxString⟩

theorem Extends.stale {h k : Heap} {id : ObjectId} (hk : h.Extends k)
    (hid : k.find? id = none) : h.find? id = none := by
  cases hold : h.find? id with
  | none => rfl
  | some o => exact nomatch hid.symm.trans (hk.kept id o hold)

theorem Sound.extends_allocate {h k : Heap} {o : HeapObject} {id : ObjectId} (hs : h.Sound)
    (hok : allocate o h = .ok id k) :
    h.Extends k ∧ h.find? id = none ∧ k.find? id = some o := by
  rcases hs.allocate_cases o with hno | ⟨id', k', hok', hplaced, halike⟩
  · exact nomatch hno.symm.trans hok
  · obtain ⟨rfl, rfl⟩ := EStateM.Result.ok.inj (hok.symm.trans hok')
    exact ⟨⟨hplaced.sound, fun _ _ => hplaced.keeps, halike.maxString⟩, hplaced.stale,
      hplaced.here⟩

/-! ## New values -/

mutual

/-- A value stands for a document through objects that were not there before and are there now. -/
inductive Stands (h k : Heap) : Json → Value → Prop
  | null : Stands h k .null .null
  | bool {b : Bool} : Stands h k (.bool b) (.bool b)
  | integer {n : Int} : Stands h k (.integer n) (.number (Float.ofInt n))
  | real {x : Float} : Stands h k (.real x) (.number x)
  | text {s : String} : Stands h k (.text s) (.string s)
  | list {id : ObjectId} {items : List Json} {values : Array Value} : h.find? id = none →
      k.find? id = some ⟨.array values, []⟩ → StandsItems h k items values.toList →
      Stands h k (.list items) (.object id)
  | object {id : ObjectId} {members : List (String × Json)} {properties : Table Value} :
      h.find? id = none → k.find? id = some ⟨.ordinary, properties⟩ →
      StandsMembers h k members properties → Stands h k (.object members) (.object id)

inductive StandsItems (h k : Heap) : List Json → List Value → Prop
  | nil : StandsItems h k [] []
  | cons {json : Json} {v : Value} {rest : List Json} {values : List Value} :
      Stands h k json v → StandsItems h k rest values →
      StandsItems h k (json :: rest) (v :: values)

inductive StandsMembers (h k : Heap) : List (String × Json) → Table Value → Prop
  | nil : StandsMembers h k [] []
  | cons {key : String} {json : Json} {v : Value} {rest : List (String × Json)}
      {properties : Table Value} : Stands h k json v → StandsMembers h k rest properties →
      StandsMembers h k ((key, json) :: rest) ((key, v) :: properties)

end

section

variable {h k l g : Heap}

mutual

/-- What is new since a later heap is new since an earlier one, and stays. -/
theorem Stands.widen (hh : g.Extends h) (hk : k.Extends l) {json : Json} {v : Value}
    (hv : Stands h k json v) : Stands g l json v := by
  cases hv with
  | null => exact .null
  | bool => exact .bool
  | integer => exact .integer
  | real => exact .real
  | text => exact .text
  | list hnew hhere hitems =>
    exact .list (hh.stale hnew) (hk.kept _ _ hhere) (StandsItems.widen hh hk hitems)
  | object hnew hhere hmembers =>
    exact .object (hh.stale hnew) (hk.kept _ _ hhere) (StandsMembers.widen hh hk hmembers)

theorem StandsItems.widen (hh : g.Extends h) (hk : k.Extends l) {items : List Json}
    {values : List Value} (hitems : StandsItems h k items values) :
    StandsItems g l items values := by
  cases hitems with
  | nil => exact .nil
  | cons hv hrest => exact .cons (Stands.widen hh hk hv) (StandsItems.widen hh hk hrest)

theorem StandsMembers.widen (hh : g.Extends h) (hk : k.Extends l)
    {members : List (String × Json)} {properties : Table Value}
    (hmembers : StandsMembers h k members properties) : StandsMembers g l members properties := by
  cases hmembers with
  | nil => exact .nil
  | cons hv hrest => exact .cons (Stands.widen hh hk hv) (StandsMembers.widen hh hk hrest)

end

theorem Stands.ne_undefined {json : Json} {v : Value} (hv : Stands h k json v) : v ≠ .undefined := by
  cases hv <;> exact nofun

mutual

theorem Stands.unfolds {json : Json} {v : Value} (hv : Stands h k json v) : k.Unfolds v json.tree := by
  cases hv with
  | null => exact .null
  | bool => exact .bool
  | integer => exact .number
  | real => exact .number
  | text => exact .text
  | list _ hhere hitems =>
    refine .array ?_ (StandsItems.unfolds hitems)
    rw [object_eq hhere]
  | object _ hhere hmembers =>
    refine .ordinary ?_ ?_
    · rw [object_eq hhere]
    · rw [object_eq hhere]
      exact StandsMembers.unfolds hmembers

theorem StandsItems.unfolds {items : List Json} {values : List Value}
    (hitems : StandsItems h k items values) :
    k.UnfoldsItems values (Json.treeOfItems items) := by
  cases hitems with
  | nil => exact .nil
  | cons hv hrest => exact .cons (Stands.unfolds hv) (StandsItems.unfolds hrest)

theorem StandsMembers.unfolds {members : List (String × Json)} {properties : Table Value}
    (hmembers : StandsMembers h k members properties) :
    k.UnfoldsMembers properties (Json.treeOfMembers members) := by
  cases hmembers with
  | nil => exact .nil
  | cons hv hrest => exact .keep hv.ne_undefined (Stands.unfolds hv) (StandsMembers.unfolds hrest)

end

/-! ## What new values lead to -/

theorem StandsItems.exists_of_mem {items : List Json} {values : List Value} {v : Value}
    (hitems : StandsItems h k items values) (hv : v ∈ values) : ∃ json, Stands h k json v := by
  cases hitems with
  | nil => exact absurd hv List.not_mem_nil
  | cons hw hrest =>
    rcases List.mem_cons.1 hv with rfl | hv
    · exact ⟨_, hw⟩
    · exact StandsItems.exists_of_mem hrest hv
termination_by values.length

theorem StandsMembers.exists_of_mem {members : List (String × Json)}
    {properties : Table Value} {key : String} {v : Value}
    (hmembers : StandsMembers h k members properties) (hv : (key, v) ∈ properties) :
    ∃ json, Stands h k json v := by
  cases hmembers with
  | nil => exact absurd hv List.not_mem_nil
  | cons hw hrest =>
    rcases List.mem_cons.1 hv with heq | hv
    · obtain ⟨rfl, rfl⟩ := Prod.mk.inj heq
      exact ⟨_, hw⟩
    · exact StandsMembers.exists_of_mem hrest hv
termination_by properties.length

variable {json : Json} {v : Value}

/-- What a value that stands for a document leads to does so as well. -/
theorem Stands.reaches (hv : Stands h k json v) {s : Scopes} {r : Reference}
    (hr : k.Reaches s [v] [] r) : ∃ id json, r = .object id ∧ Stands h k json (.object id) := by
  induction hr with
  | root hroot =>
    obtain rfl := List.mem_singleton.1 hroot
    exact ⟨_, _, rfl, hv⟩
  | scope hscope => exact absurd hscope List.not_mem_nil
  | property _ ho htarget ih =>
    obtain ⟨id, json, heq, hid⟩ := ih
    obtain rfl := Reference.object.inj heq
    cases hid with
    | list _ hhere => 
      obtain rfl := Option.some.inj (hhere.symm.trans ho)
      exact absurd htarget List.not_mem_nil
    | object _ hhere hmembers =>
      obtain rfl := Option.some.inj (hhere.symm.trans ho)
      obtain ⟨json, hjson⟩ := hmembers.exists_of_mem htarget
      exact ⟨_, json, rfl, hjson⟩
  | element _ ho hkind htarget ih =>
    obtain ⟨id, json, heq, hid⟩ := ih
    obtain rfl := Reference.object.inj heq
    cases hid with
    | list _ hhere hitems =>
      obtain rfl := Option.some.inj (hhere.symm.trans ho)
      obtain rfl := ObjectKind.array.inj hkind
      obtain ⟨json, hjson⟩ := hitems.exists_of_mem (Array.mem_toList_iff.2 htarget)
      exact ⟨_, json, rfl, hjson⟩
    | object _ hhere =>
      obtain rfl := Option.some.inj (hhere.symm.trans ho)
      exact nomatch hkind
  | closure _ ho hkind ih =>
    obtain ⟨id, json, heq, hid⟩ := ih
    obtain rfl := Reference.object.inj heq
    cases hid with
    | list _ hhere | object _ hhere =>
      obtain rfl := Option.some.inj (hhere.symm.trans ho)
      exact nomatch hkind
  | binding _ _ _ _ ih | parent _ _ _ ih =>
    obtain ⟨id, json, heq, -⟩ := ih
    exact nomatch heq

theorem Stands.isNew (hv : Stands h k json v) {s : Scopes} {id : ObjectId}
    (hid : k.Reaches s [v] [] (.object id)) : h.isLive id = false ∧ k.isLive id = true := by
  obtain ⟨id', json', heq, hstands⟩ := hv.reaches hid
  obtain rfl := Reference.object.inj heq
  cases hstands with
  | list hnew hhere | object hnew hhere =>
    exact ⟨by rw [isLive, hnew, Option.isSome_none], isLive_iff.2 ⟨_, hhere⟩⟩

/-! ## Bringing documents in -/

mutual

theorem stands_fromJson {h k : Heap} (hs : h.Sound) {json : Json} {v : Value}
    (hok : fromJson json h = .ok v k) : h.Extends k ∧ Stands h k json v := by
  cases json with
  | null =>
    obtain ⟨rfl, rfl⟩ := EStateM.Result.ok.inj hok
    exact ⟨.refl hs, .null⟩
  | bool b =>
    obtain ⟨rfl, rfl⟩ := EStateM.Result.ok.inj hok
    exact ⟨.refl hs, .bool⟩
  | integer n =>
    obtain ⟨rfl, rfl⟩ := EStateM.Result.ok.inj hok
    exact ⟨.refl hs, .integer⟩
  | real x =>
    obtain ⟨rfl, rfl⟩ := EStateM.Result.ok.inj hok
    exact ⟨.refl hs, .real⟩
  | text s =>
    obtain ⟨rfl, rfl⟩ := EStateM.Result.ok.inj hok
    exact ⟨.refl hs, .text⟩
  | list items =>
    obtain ⟨values, h₁, hitems, hok⟩ := bind_eq_ok hok
    rw [map_eq_pure_bind] at hok
    obtain ⟨id, h₂, hallocated, hok⟩ := bind_eq_ok hok
    obtain ⟨rfl, rfl⟩ := EStateM.Result.ok.inj hok
    obtain ⟨hextends, more, hvalues, hmore⟩ := stands_fromItems hs hitems
    obtain ⟨hextends', hnew, hhere⟩ := hextends.sound.extends_allocate hallocated
    have hvalues : values.toList = more := by simpa using hvalues
    subst hvalues
    exact ⟨hextends.trans hextends',
      .list (hextends.stale hnew) hhere (hmore.widen (.refl hs) hextends')⟩
  | object members =>
    obtain ⟨properties, h₁, hmembers, hok⟩ := bind_eq_ok hok
    rw [map_eq_pure_bind] at hok
    obtain ⟨id, h₂, hallocated, hok⟩ := bind_eq_ok hok
    obtain ⟨rfl, rfl⟩ := EStateM.Result.ok.inj hok
    obtain ⟨hextends, more, hproperties, hmore⟩ := stands_fromMembers hs hmembers
    obtain ⟨hextends', hnew, hhere⟩ := hextends.sound.extends_allocate hallocated
    have hproperties : properties.toList = more := by simpa using hproperties
    subst hproperties
    exact ⟨hextends.trans hextends',
      .object (hextends.stale hnew) hhere (hmore.widen (.refl hs) hextends')⟩

theorem stands_fromItems {h k : Heap} (hs : h.Sound) {found values : Array Value}
    {items : List Json} (hok : fromItems found items h = .ok values k) :
    h.Extends k ∧ ∃ more, values.toList = found.toList ++ more ∧ StandsItems h k items more := by
  cases items with
  | nil =>
    obtain ⟨rfl, rfl⟩ := EStateM.Result.ok.inj hok
    exact ⟨.refl hs, [], (List.append_nil _).symm, .nil⟩
  | cons item rest =>
    obtain ⟨v, h₁, hitem, hok⟩ := bind_eq_ok hok
    obtain ⟨hextends, hv⟩ := stands_fromJson hs hitem
    obtain ⟨hextends', more, hvalues, hmore⟩ := stands_fromItems hextends.sound hok
    refine ⟨hextends.trans hextends', v :: more, ?_,
      .cons (hv.widen (.refl hs) hextends') (hmore.widen hextends (.refl hextends'.sound))⟩
    rw [hvalues, Array.toList_push, List.append_assoc, List.singleton_append]

theorem stands_fromMembers {h k : Heap} (hs : h.Sound) {found properties : Array (String × Value)}
    {members : List (String × Json)} (hok : fromMembers found members h = .ok properties k) :
    h.Extends k ∧
      ∃ more, properties.toList = found.toList ++ more ∧ StandsMembers h k members more := by
  cases members with
  | nil =>
    obtain ⟨rfl, rfl⟩ := EStateM.Result.ok.inj hok
    exact ⟨.refl hs, [], (List.append_nil _).symm, .nil⟩
  | cons member rest =>
    obtain ⟨key, item⟩ := member
    obtain ⟨v, h₁, hitem, hok⟩ := bind_eq_ok hok
    obtain ⟨hextends, hv⟩ := stands_fromJson hs hitem
    obtain ⟨hextends', more, hproperties, hmore⟩ := stands_fromMembers hextends.sound hok
    refine ⟨hextends.trans hextends', (key, v) :: more, ?_,
      .cons (hv.widen (.refl hs) hextends') (hmore.widen hextends (.refl hextends'.sound))⟩
    rw [hproperties, Array.toList_push, List.append_assoc, List.singleton_append]

end

/-! ## The way back -/

theorem toJson_fromJson (hs : h.Sound) (hj : json.Document) (hdepth : json.depth ≤ nestingLimit)
    (hsize : json.size ≤ h.maxString) (hok : fromJson json h = .ok v k) :
    k.toJson v = .ok json.norm := by
  obtain ⟨hextends, hstands⟩ := stands_fromJson hs hok
  refine toJson_eq_ok_iff.2 ⟨json.tree, hstands.unfolds, ?_, ?_, Json.json_tree hj⟩
  · rw [Json.depth_tree]
    exact hdepth
  · rw [Json.size_tree, hextends.maxString]
    exact hsize

/-- What has been written once is written again as it is. -/
theorem toJson_again {w : Value} (hw : h.toJson w = .ok json) (hg : g.Sound)
    (hlimit : h.maxString ≤ g.maxString) (hok : fromJson json g = .ok v k) :
    k.toJson v = .ok json := by
  obtain ⟨t, -, hdepth, hsize, rfl⟩ := toJson_eq_ok_iff.1 hw
  have hback := toJson_fromJson hg t.document_json (Nat.le_trans t.depth_json hdepth)
    (Nat.le_trans t.size_json (Nat.le_trans hsize hlimit)) hok
  rw [hback, t.norm_json]

theorem norm_of_toJson {w : Value} (hw : h.toJson w = .ok json) : json.norm = json := by
  obtain ⟨t, -, -, -, rfl⟩ := toJson_eq_ok_iff.1 hw
  exact t.norm_json

end

/--
A document that is neither too deep nor too large is written back from the value that stands for
it, whose objects are all new. Only its numbers may be written otherwise: safe integers as such, and
others as the nearest double. What has been written from a value already is written just so.
-/
theorem bridge_round_trip (h : Heap) (hs : h.Sound) :
    (∀ json v k, json.Document → json.depth ≤ nestingLimit → json.size ≤ h.maxString →
      fromJson json h = .ok v k →
      (∀ s id, k.Reaches s [v] [] (.object id) → h.isLive id = false ∧ k.isLive id = true) ∧
      k.toJson v = .ok json.norm) ∧
    (∀ x n, (Json.real x).norm = .integer n ↔
      (Number.form x).value? = some (n : ℚ) ∧ n.natAbs ≤ Number.safeInteger) ∧
    (∀ n : Int, -2 ^ 63 ≤ n → n < 2 ^ 64 → Number.safeInteger < n.natAbs →
      (Json.integer n).norm = .real (Float.ofInt n) ∧ Number.Nearest (Float.ofInt n) n) ∧
    (∀ w json, h.toJson w = .ok json → json.norm = json) ∧
    ∀ w json g v k, h.toJson w = .ok json → g.Sound → h.maxString ≤ g.maxString →
      fromJson json g = .ok v k → k.toJson v = .ok json := by
  refine ⟨fun json v k hj hdepth hsize hok => ⟨fun s id hid => ?_, ?_⟩,
    fun x n => Json.norm_real_eq_integer, fun n hlow hhigh => Json.norm_integer_large hlow hhigh,
    fun w json => norm_of_toJson, fun w json g v k hw hg hlimit => toJson_again hw hg hlimit⟩
  · obtain ⟨-, hstands⟩ := stands_fromJson hs hok
    exact hstands.isNew hid
  · exact toJson_fromJson hs hj hdepth hsize hok

/-- A document of two lists and a number, brought into an empty heap. -/
theorem bridge_round_trip_nested :
    let json : Json := .object [("id", .integer 7), ("tags", .list [.text "a", .list []])]
    (Heap.empty 0 {}).Sound ∧ ∃ v k, fromJson json (.empty 0 {}) = .ok v k ∧
      k.toJson v = .ok json.norm := by
  intro json
  have hs : (Heap.empty 0 {}).Sound := .empty 0 {}
  have hj : json.Document := by
    refine .object (List.pairwise_pair.2 (by decide)) ?_
    simp
    exact ⟨.integer (by decide) (by decide), .list (by simp; exact ⟨.text, .list (by simp)⟩)⟩
  obtain ⟨hback, -⟩ := bridge_round_trip (.empty 0 {}) hs
  have hdepth : json.depth ≤ nestingLimit := by decide
  have hsize : json.size ≤ (Heap.empty 0 {}).maxString := by decide
  refine ⟨hs, _, _, rfl, ?_⟩
  exact (hback json _ _ hj hdepth hsize rfl).2

end ScriptHost.Heap

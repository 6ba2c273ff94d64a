import Mathlib.Logic.Relation
import ScriptHost.Heap.Clone

/-!
What a value comes to when the objects behind it are written out: a finite tree, if there is one.
-/

namespace ScriptHost

/-- Data without handles. Objects have no members that are undefined. -/
inductive DataTree where
  | undefined
  | null
  | bool (b : Bool)
  | number (x : Float)
  | text (s : String)
  | list (items : List DataTree)
  | object (members : List (String × DataTree))
  deriving Inhabited

namespace DataTree

/-! ## Measures -/

mutual

/-- How deeply the innermost part lies; whatever has no parts is flat. -/
def depth : DataTree → Nat
  | .list items => depthOfItems items
  | .object members => depthOfMembers members
  | _ => 0

def depthOfItems : List DataTree → Nat
  | [] => 0
  | t :: rest => max (t.depth + 1) (depthOfItems rest)

def depthOfMembers : List (String × DataTree) → Nat
  | [] => 0
  | (_, t) :: rest => max (t.depth + 1) (depthOfMembers rest)

end

mutual

/-- One for every node, and the bytes of its texts and keys. -/
def size : DataTree → Nat
  | .text s => 1 + s.utf8ByteSize
  | .list items => 1 + sizeOfItems items
  | .object members => 1 + sizeOfMembers members
  | _ => 1

def sizeOfItems : List DataTree → Nat
  | [] => 0
  | t :: rest => t.size + sizeOfItems rest

def sizeOfMembers : List (String × DataTree) → Nat
  | [] => 0
  | (key, t) :: rest => key.utf8ByteSize + t.size + sizeOfMembers rest

end

/-! ## Documents -/

mutual

/-- Documents know nothing undefined and no number that is not finite. -/
def json : DataTree → Json
  | .undefined => .null
  | .null => .null
  | .bool b => .bool b
  | .number x => .ofNumber x
  | .text s => .text s
  | .list items => .list (jsonOfItems items)
  | .object members => .object (jsonOfMembers [] members)

def jsonOfItems : List DataTree → List Json
  | [] => []
  | t :: rest => t.json :: jsonOfItems rest

def jsonOfMembers (found : List (String × Json)) :
    List (String × DataTree) → List (String × Json)
  | [] => found
  | (key, t) :: rest => jsonOfMembers (Json.insert key t.json found) rest

end

theorem size_pos (t : DataTree) : 0 < t.size := by
  cases t <;> simp only [size] <;> omega

end DataTree

/-! ## Unfolding -/

namespace Heap

mutual

/-- The tree that a value unfolds to. Functions have none, and neither has what leads to itself. -/
inductive Unfolds (h : Heap) : Value → DataTree → Prop
  | undefined : Unfolds h .undefined .undefined
  | null : Unfolds h .null .null
  | bool {b : Bool} : Unfolds h (.bool b) (.bool b)
  | number {x : Float} : Unfolds h (.number x) (.number x)
  | text {s : String} : Unfolds h (.string s) (.text s)
  | array {id : ObjectId} {items : Array Value} {trees : List DataTree} :
      (h.object id).kind = .array items → UnfoldsItems h items.toList trees →
      Unfolds h (.object id) (.list trees)
  | ordinary {id : ObjectId} {members : List (String × DataTree)} :
      (h.object id).kind = .ordinary → UnfoldsMembers h (h.object id).properties members →
      Unfolds h (.object id) (.object members)
  | error {id : ObjectId} {kind : ErrorKind} {members : List (String × DataTree)} :
      (h.object id).kind = .error kind → UnfoldsMembers h (h.object id).properties members →
      Unfolds h (.object id) (.object members)

inductive UnfoldsItems (h : Heap) : List Value → List DataTree → Prop
  | nil : UnfoldsItems h [] []
  | cons {v : Value} {t : DataTree} {rest : List Value} {trees : List DataTree} :
      Unfolds h v t → UnfoldsItems h rest trees → UnfoldsItems h (v :: rest) (t :: trees)

inductive UnfoldsMembers (h : Heap) : Table Value → List (String × DataTree) → Prop
  | nil : UnfoldsMembers h [] []
  | skip {key : String} {rest : Table Value} {members : List (String × DataTree)} :
      UnfoldsMembers h rest members → UnfoldsMembers h ((key, .undefined) :: rest) members
  | keep {key : String} {v : Value} {t : DataTree} {rest : Table Value}
      {members : List (String × DataTree)} : v ≠ .undefined → Unfolds h v t →
      UnfoldsMembers h rest members →
      UnfoldsMembers h ((key, v) :: rest) ((key, t) :: members)

end

/-- The values that the unfolding of a value goes on with. -/
inductive Opens (h : Heap) : Value → Value → Prop
  | item {id : ObjectId} {items : Array Value} {v : Value} :
      (h.object id).kind = .array items → v ∈ items → Opens h (.object id) v
  | ordinary {id : ObjectId} {key : String} {v : Value} :
      (h.object id).kind = .ordinary → (key, v) ∈ (h.object id).properties → v ≠ .undefined →
      Opens h (.object id) v
  | error {id : ObjectId} {kind : ErrorKind} {key : String} {v : Value} :
      (h.object id).kind = .error kind → (key, v) ∈ (h.object id).properties → v ≠ .undefined →
      Opens h (.object id) v

variable {h : Heap} {v w : Value} {t : DataTree}

theorem UnfoldsItems.exists_of_mem {vs : List Value} {trees : List DataTree}
    (hvs : h.UnfoldsItems vs trees) (hv : v ∈ vs) :
    ∃ t, h.Unfolds v t ∧ t.size ≤ DataTree.sizeOfItems trees := by
  cases hvs with
  | nil => simp at hv
  | cons hw hrest =>
    rcases List.mem_cons.1 hv with rfl | hv
    · exact ⟨_, hw, by simp [DataTree.sizeOfItems]⟩
    · obtain ⟨t, ht, hsize⟩ := hrest.exists_of_mem hv
      exact ⟨t, ht, by simp [DataTree.sizeOfItems]; omega⟩
termination_by vs.length

theorem UnfoldsMembers.exists_of_mem {table : Table Value} {members : List (String × DataTree)}
    {key : String} (htable : h.UnfoldsMembers table members) (hv : (key, v) ∈ table)
    (hdefined : v ≠ .undefined) :
    ∃ t, h.Unfolds v t ∧ t.size ≤ DataTree.sizeOfMembers members := by
  cases htable with
  | nil => simp at hv
  | skip hrest =>
    rcases List.mem_cons.1 hv with heq | hv
    · simp_all
    · exact hrest.exists_of_mem hv hdefined
  | keep _ hw hrest =>
    rcases List.mem_cons.1 hv with heq | hv
    · obtain ⟨rfl, rfl⟩ := Prod.mk.inj heq
      exact ⟨_, hw, by simp [DataTree.sizeOfMembers]; omega⟩
    · obtain ⟨t, ht, hsize⟩ := hrest.exists_of_mem hv hdefined
      exact ⟨t, ht, by simp [DataTree.sizeOfMembers]; omega⟩
termination_by table.length

/-! ### By the kind of an object -/

section

variable {id : ObjectId}

theorem unfolds_array {items : Array Value} (hkind : (h.object id).kind = .array items) :
    h.Unfolds (.object id) t ↔ ∃ trees, t = .list trees ∧ h.UnfoldsItems items.toList trees := by
  constructor
  · intro ht
    cases ht with
    | array hkind' hitems =>
      obtain rfl := ObjectKind.array.inj (hkind.symm.trans hkind')
      exact ⟨_, rfl, hitems⟩
    | ordinary hkind' | error hkind' => exact nomatch hkind.symm.trans hkind'
  · rintro ⟨trees, rfl, hitems⟩
    exact .array hkind hitems

theorem unfolds_ordinary (hkind : (h.object id).kind = .ordinary) :
    h.Unfolds (.object id) t ↔
      ∃ members, t = .object members ∧ h.UnfoldsMembers (h.object id).properties members := by
  constructor
  · intro ht
    cases ht with
    | ordinary _ hmembers => exact ⟨_, rfl, hmembers⟩
    | array hkind' | error hkind' => exact nomatch hkind.symm.trans hkind'
  · rintro ⟨members, rfl, hmembers⟩
    exact .ordinary hkind hmembers

theorem unfolds_error {kind : ErrorKind} (hkind : (h.object id).kind = .error kind) :
    h.Unfolds (.object id) t ↔
      ∃ members, t = .object members ∧ h.UnfoldsMembers (h.object id).properties members := by
  constructor
  · intro ht
    cases ht with
    | error _ hmembers => exact ⟨_, rfl, hmembers⟩
    | array hkind' | ordinary hkind' => exact nomatch hkind.symm.trans hkind'
  · rintro ⟨members, rfl, hmembers⟩
    exact .error hkind hmembers

theorem not_unfolds_callable (hcall : (h.object id).isCallable = true) :
    ¬ h.Unfolds (.object id) t := by
  intro ht
  cases ht with
  | array hkind | ordinary hkind | error hkind => simp [HeapObject.isCallable, hkind] at hcall

end

/-- What a value opens unfolds to a smaller part of its tree. -/
theorem Unfolds.of_opens (hv : h.Unfolds v t) (hw : h.Opens v w) :
    ∃ u, h.Unfolds w u ∧ u.size < t.size := by
  cases hw with
  | item hkind hmem =>
    obtain ⟨trees, rfl, hitems⟩ := (unfolds_array hkind).1 hv
    obtain ⟨u, hu, hsize⟩ := hitems.exists_of_mem (Array.mem_toList_iff.2 hmem)
    exact ⟨u, hu, by simp [DataTree.size]; omega⟩
  | ordinary hkind hmem hdefined =>
    obtain ⟨members, rfl, hmembers⟩ := (unfolds_ordinary hkind).1 hv
    obtain ⟨u, hu, hsize⟩ := hmembers.exists_of_mem hmem hdefined
    exact ⟨u, hu, by simp [DataTree.size]; omega⟩
  | error hkind hmem hdefined =>
    obtain ⟨members, rfl, hmembers⟩ := (unfolds_error hkind).1 hv
    obtain ⟨u, hu, hsize⟩ := hmembers.exists_of_mem hmem hdefined
    exact ⟨u, hu, by simp [DataTree.size]; omega⟩

theorem Unfolds.of_reflTransGen (hw : Relation.ReflTransGen h.Opens v w) (hv : h.Unfolds v t) :
    ∃ u, h.Unfolds w u := by
  induction hw with
  | refl => exact ⟨t, hv⟩
  | tail _ hopens ih =>
    obtain ⟨u, hu⟩ := ih
    obtain ⟨u', hu', -⟩ := hu.of_opens hopens
    exact ⟨u', hu'⟩

theorem Unfolds.of_transGen (hw : Relation.TransGen h.Opens v w) (hv : h.Unfolds v t) :
    ∃ u, h.Unfolds w u ∧ u.size < t.size := by
  induction hw with
  | single hopens => exact hv.of_opens hopens
  | tail _ hopens ih =>
    obtain ⟨u, hu, hsize⟩ := ih
    obtain ⟨u', hu', hsize'⟩ := hu.of_opens hopens
    exact ⟨u', hu', Nat.lt_trans hsize' hsize⟩

/-- The tree of a value on a circle would be smaller than itself. -/
theorem not_unfolds_of_circle (hw : Relation.TransGen h.Opens w w) : ¬ h.Unfolds w t := by
  intro hu
  induction hn : t.size using Nat.strongRecOn generalizing t with
  | ind n ih =>
    obtain ⟨u, hu', hsize⟩ := hu.of_transGen hw
    exact ih u.size (hn ▸ hsize) hu' rfl

theorem not_unfolds_of_reaches_circle (hw : Relation.ReflTransGen h.Opens v w)
    (hcircle : Relation.TransGen h.Opens w w) : ¬ h.Unfolds v t := by
  intro hv
  obtain ⟨u, hu⟩ := hv.of_reflTransGen hw
  exact not_unfolds_of_circle hcircle hu

end Heap

end ScriptHost

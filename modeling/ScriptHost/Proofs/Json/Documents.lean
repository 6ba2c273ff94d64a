import ScriptHost.Proofs.Heap.Unfolding
import ScriptHost.Proofs.Number.Integers

/-!
JSON documents as such: their measures, the trees that they stand for, and what is left of their
numbers once those have been doubles.
-/

namespace ScriptHost

open Number

namespace Json

/-! ## Measures -/

mutual

/-- How deeply the innermost part lies; whatever has no parts is flat. -/
def depth : Json → Nat
  | .list items => depthOfItems items
  | .object members => depthOfMembers members
  | _ => 0

def depthOfItems : List Json → Nat
  | [] => 0
  | json :: rest => max (json.depth + 1) (depthOfItems rest)

def depthOfMembers : List (String × Json) → Nat
  | [] => 0
  | (_, json) :: rest => max (json.depth + 1) (depthOfMembers rest)

end

mutual

/-- One for every node, and the bytes of its texts and keys. -/
def size : Json → Nat
  | .text s => 1 + s.utf8ByteSize
  | .list items => 1 + sizeOfItems items
  | .object members => 1 + sizeOfMembers members
  | _ => 1

def sizeOfItems : List Json → Nat
  | [] => 0
  | json :: rest => json.size + sizeOfItems rest

def sizeOfMembers : List (String × Json) → Nat
  | [] => 0
  | (key, json) :: rest => key.utf8ByteSize + json.size + sizeOfMembers rest

end

/-! ## Documents -/

/-- Keys come in ascending order, none of them twice. -/
def Ascending (members : List (String × Json)) : Prop :=
  members.Pairwise fun member other => member.1 < other.1

/-- Integers are those of a machine word, signed or not, and other numbers are finite. -/
inductive Document : Json → Prop
  | null : Document .null
  | bool {b : Bool} : Document (.bool b)
  | integer {n : Int} : -2 ^ 63 ≤ n → n < 2 ^ 64 → Document (.integer n)
  | real {x : Float} : x.isFinite = true → Document (.real x)
  | text {s : String} : Document (.text s)
  | list {items : List Json} : (∀ item ∈ items, Document item) → Document (.list items)
  | object {members : List (String × Json)} : Ascending members →
      (∀ member ∈ members, Document member.2) → Document (.object members)

mutual

/-- A safe integer is written as one; any other number is the double nearest to it. -/
def norm : Json → Json
  | .integer n => if n.natAbs ≤ safeInteger then .integer n else .real (Float.ofInt n)
  | .real x =>
      match smallInteger? x with
      | some n => .integer n
      | none => .real x
  | .list items => .list (normItems items)
  | .object members => .object (normMembers members)
  | json => json

def normItems : List Json → List Json
  | [] => []
  | json :: rest => json.norm :: normItems rest

def normMembers : List (String × Json) → List (String × Json)
  | [] => []
  | (key, json) :: rest => (key, json.norm) :: normMembers rest

end

mutual

/-- The data that a document stands for. -/
def tree : Json → DataTree
  | .null => .null
  | .bool b => .bool b
  | .integer n => .number (Float.ofInt n)
  | .real x => .number x
  | .text s => .text s
  | .list items => .list (treeOfItems items)
  | .object members => .object (treeOfMembers members)

def treeOfItems : List Json → List DataTree
  | [] => []
  | json :: rest => json.tree :: treeOfItems rest

def treeOfMembers : List (String × Json) → List (String × DataTree)
  | [] => []
  | (key, json) :: rest => (key, json.tree) :: treeOfMembers rest

end

mutual

theorem depth_tree (json : Json) : json.tree.depth = json.depth := by
  cases json with
  | list items => exact depthOfItems_tree items
  | object members => exact depthOfMembers_tree members
  | _ => rfl

theorem depthOfItems_tree (items : List Json) :
    DataTree.depthOfItems (treeOfItems items) = depthOfItems items := by
  cases items with
  | nil => rfl
  | cons json rest =>
    simp [treeOfItems, DataTree.depthOfItems, depthOfItems, depth_tree json, depthOfItems_tree rest]

theorem depthOfMembers_tree (members : List (String × Json)) :
    DataTree.depthOfMembers (treeOfMembers members) = depthOfMembers members := by
  cases members with
  | nil => rfl
  | cons member rest =>
    obtain ⟨key, json⟩ := member
    simp [treeOfMembers, DataTree.depthOfMembers, depthOfMembers, depth_tree json,
      depthOfMembers_tree rest]

end

mutual

theorem size_tree (json : Json) : json.tree.size = json.size := by
  cases json with
  | list items => exact congrArg (1 + ·) (sizeOfItems_tree items)
  | object members => exact congrArg (1 + ·) (sizeOfMembers_tree members)
  | _ => rfl

theorem sizeOfItems_tree (items : List Json) :
    DataTree.sizeOfItems (treeOfItems items) = sizeOfItems items := by
  cases items with
  | nil => rfl
  | cons json rest =>
    simp [treeOfItems, DataTree.sizeOfItems, sizeOfItems, size_tree json, sizeOfItems_tree rest]

theorem sizeOfMembers_tree (members : List (String × Json)) :
    DataTree.sizeOfMembers (treeOfMembers members) = sizeOfMembers members := by
  cases members with
  | nil => rfl
  | cons member rest =>
    obtain ⟨key, json⟩ := member
    simp [treeOfMembers, DataTree.sizeOfMembers, sizeOfMembers, size_tree json,
      sizeOfMembers_tree rest]

end

/-! ## Numbers -/

theorem ofNumber_of_some {x : Float} {n : Int} (hx : smallInteger? x = some n) :
    ofNumber x = .integer n := by
  rw [ofNumber, hx]

theorem ofNumber_of_none {x : Float} (hx : smallInteger? x = none) (hfinite : x.isFinite = true) :
    ofNumber x = .real x := by
  rw [ofNumber, hx]
  exact if_pos hfinite

theorem ofNumber_ofInt {n : Int} (hlow : -2 ^ 63 ≤ n) (hhigh : n < 2 ^ 64) :
    ofNumber (Float.ofInt n) = (Json.integer n).norm := by
  unfold norm
  split
  · next hsafe => exact ofNumber_of_some (smallInteger?_ofInt hsafe)
  · next hlarge =>
    obtain ⟨hnone, hfinite⟩ := smallInteger?_ofInt_large (Nat.lt_of_not_le hlarge) (by omega)
    exact ofNumber_of_none hnone hfinite

theorem ofNumber_real {x : Float} (hx : x.isFinite = true) : ofNumber x = (Json.real x).norm := by
  unfold norm
  cases hsmall : smallInteger? x with
  | some n => exact ofNumber_of_some hsmall
  | none => exact ofNumber_of_none hsmall hx

/-- Doubles that stand for safe integers become those, and minus zero becomes zero. -/
theorem norm_real_eq_integer {x : Float} {n : Int} : (Json.real x).norm = .integer n ↔
    (form x).value? = some (n : ℚ) ∧ n.natAbs ≤ safeInteger := by
  have hsmall : smallInteger? x = some n ↔ _ := smallInteger?_eq_some
  rw [integer?, Form.integer?_eq_some] at hsmall
  rw [← hsmall, norm]
  cases smallInteger? x with
  | some k => simp
  | none => simp

example : (Json.real (-0.0)).norm = .integer 0 := rfl

theorem norm_integer_large {n : Int} (hlow : -2 ^ 63 ≤ n) (hhigh : n < 2 ^ 64)
    (hlarge : safeInteger < n.natAbs) :
    (Json.integer n).norm = .real (Float.ofInt n) ∧ Nearest (Float.ofInt n) n := by
  have hlimit : safeInteger = 2 ^ 53 - 1 := by decide
  rw [norm, if_neg (Nat.not_le_of_lt hlarge)]
  exact ⟨rfl, nearest_ofInt (by omega) (by omega)⟩

/-- A number that has been a double stays as it is. -/
theorem norm_ofNumber (x : Float) : (ofNumber x).norm = ofNumber x := by
  cases hsmall : smallInteger? x with
  | some n =>
    rw [ofNumber_of_some hsmall, norm, if_pos (smallInteger?_eq_some.1 hsmall).2]
  | none =>
    by_cases hfinite : x.isFinite = true
    · rw [ofNumber_of_none hsmall hfinite, norm, hsmall]
    · rw [ofNumber, hsmall]
      simp [hfinite, norm]

theorem document_ofNumber (x : Float) : (ofNumber x).Document := by
  cases hsmall : smallInteger? x with
  | some n =>
    have hsafe := (smallInteger?_eq_some.1 hsmall).2
    have hlimit : safeInteger < 2 ^ 53 := by decide
    rw [ofNumber_of_some hsmall]
    exact .integer (by omega) (by omega)
  | none =>
    by_cases hfinite : x.isFinite = true
    · rw [ofNumber_of_none hsmall hfinite]
      exact .real hfinite
    · rw [ofNumber, hsmall]
      simp [hfinite, Document.null]

/-! ## Members -/

section

variable {key : String} {json : Json} {found members : List (String × Json)}

theorem mem_insert {member : String × Json} (h : member ∈ insert key json found) :
    member = (key, json) ∨ member ∈ found := by
  induction found with
  | nil => simpa [insert] using h
  | cons first rest ih =>
    obtain ⟨k, v⟩ := first
    simp only [insert] at h
    split at h
    · exact List.mem_cons.1 h
    · split at h
      · rcases List.mem_cons.1 h with rfl | h
        · exact .inl rfl
        · exact .inr (List.mem_cons_of_mem _ h)
      · rcases List.mem_cons.1 h with rfl | h
        · exact .inr List.mem_cons_self
        · exact (ih h).imp_right (List.mem_cons_of_mem _)

theorem ascending_insert (h : Ascending found) (key : String) (json : Json) :
    Ascending (insert key json found) := by
  induction found with
  | nil => exact List.pairwise_singleton _ _
  | cons first rest ih =>
    obtain ⟨k, v⟩ := first
    obtain ⟨hfirst, hrest⟩ := List.pairwise_cons.1 h
    simp only [insert]
    split
    · next hlt =>
      refine List.pairwise_cons.2 ⟨fun member hmember => ?_, h⟩
      rcases List.mem_cons.1 hmember with rfl | hmember
      · exact hlt
      · exact String.lt_trans hlt (hfirst member hmember)
    · next hnot =>
      split
      · next heq =>
        subst heq
        exact List.pairwise_cons.2 ⟨hfirst, hrest⟩
      · next hne =>
        have hgt : k < key := by
          by_contra hle
          exact hne (String.le_antisymm (String.not_lt.1 hle) (String.not_lt.1 hnot))
        refine List.pairwise_cons.2 ⟨fun member hmember => ?_, ih hrest⟩
        rcases mem_insert hmember with rfl | hmember
        · exact hgt
        · exact hfirst member hmember

/-- What comes last in the order is put at the end. -/
theorem insert_last (h : ∀ member ∈ found, member.1 < key) :
    insert key json found = found ++ [(key, json)] := by
  induction found with
  | nil => rfl
  | cons first rest ih =>
    obtain ⟨k, v⟩ := first
    obtain ⟨hlt, hrest⟩ := List.forall_mem_cons.1 h
    have hne : key ≠ k := fun heq => String.lt_irrefl k (heq ▸ hlt)
    rw [insert, if_neg (String.lt_asymm hlt), if_neg hne, ih hrest, List.cons_append]

theorem depthOfMembers_insert (key : String) (json : Json) (found : List (String × Json)) :
    depthOfMembers (insert key json found) ≤ max (json.depth + 1) (depthOfMembers found) := by
  induction found with
  | nil => simp [insert, depthOfMembers]
  | cons first rest ih =>
    obtain ⟨k, v⟩ := first
    simp only [insert]
    split
    · simp [depthOfMembers]
    · split <;> simp only [depthOfMembers] <;> omega

theorem sizeOfMembers_insert (key : String) (json : Json) (found : List (String × Json)) :
    sizeOfMembers (insert key json found) ≤
      key.utf8ByteSize + json.size + sizeOfMembers found := by
  induction found with
  | nil => simp [insert, sizeOfMembers]
  | cons first rest ih =>
    obtain ⟨k, v⟩ := first
    simp only [insert]
    split
    · simp [sizeOfMembers]
    · split <;> simp only [sizeOfMembers] <;> omega

end

/-! ## Trees of documents -/

section

open DataTree

mutual

/-- A document is written back from its tree with the numbers that those have become. -/
theorem json_tree {json : Json} (hj : json.Document) : json.tree.json = json.norm := by
  cases hj with
  | null | bool | text => rfl
  | integer hlow hhigh => exact ofNumber_ofInt hlow hhigh
  | real hx => exact ofNumber_real hx
  | list hitems => exact congrArg Json.list (jsonOfItems_tree hitems)
  | object hkeys hmembers =>
    exact congrArg Json.object (jsonOfMembers_tree [] hkeys hmembers (List.forall_mem_nil _))

theorem jsonOfItems_tree {items : List Json} (hitems : ∀ item ∈ items, item.Document) :
    jsonOfItems (treeOfItems items) = normItems items := by
  cases items with
  | nil => rfl
  | cons item rest =>
    obtain ⟨hitem, hrest⟩ := List.forall_mem_cons.1 hitems
    simp [treeOfItems, jsonOfItems, normItems, json_tree hitem, jsonOfItems_tree hrest]

/-- Each key comes last in the order when it is put in. -/
theorem jsonOfMembers_tree (found : List (String × Json)) {members : List (String × Json)}
    (hkeys : Ascending members) (hmembers : ∀ member ∈ members, member.2.Document)
    (hlast : ∀ member ∈ found, ∀ other ∈ members, member.1 < other.1) :
    jsonOfMembers found (treeOfMembers members) = found ++ normMembers members := by
  cases members with
  | nil => simp [treeOfMembers, jsonOfMembers, normMembers]
  | cons member rest =>
    obtain ⟨key, json⟩ := member
    obtain ⟨hfirst, hascending⟩ := List.pairwise_cons.1 hkeys
    obtain ⟨hjson, hrest⟩ := List.forall_mem_cons.1 hmembers
    have hend : ∀ other ∈ found, other.1 < key :=
      fun other hother => hlast other hother (key, json) List.mem_cons_self
    have hmore : ∀ other ∈ found ++ [(key, json.norm)], ∀ later ∈ rest, other.1 < later.1 := by
      intro other hother later hlater
      rcases List.mem_append.1 hother with hother | hother
      · exact hlast other hother later (List.mem_cons_of_mem _ hlater)
      · obtain rfl := List.mem_singleton.1 hother
        exact hfirst later hlater
    simp only [treeOfMembers, jsonOfMembers, normMembers, json_tree hjson]
    rw [insert_last hend, jsonOfMembers_tree _ hascending hrest hmore, List.append_assoc,
      List.singleton_append]

end

end

end Json

/-! ## Documents of trees -/

namespace DataTree

open Json

/-- A property of trees that holds of each whose parts have it holds of all. -/
theorem induct {P : DataTree → Prop} (hundefined : P .undefined) (hnull : P .null)
    (hbool : ∀ b, P (.bool b)) (hnumber : ∀ x, P (.number x)) (htext : ∀ s, P (.text s))
    (hlist : ∀ items, (∀ t ∈ items, P t) → P (.list items))
    (hobject : ∀ members, (∀ member ∈ members, P member.2) → P (.object members))
    (t : DataTree) : P t := by
  cases t with
  | undefined => exact hundefined
  | null => exact hnull
  | bool b => exact hbool b
  | number x => exact hnumber x
  | text s => exact htext s
  | list items =>
    exact hlist items fun t ht => induct hundefined hnull hbool hnumber htext hlist hobject t
  | object members =>
    exact hobject members fun member hmember =>
      induct hundefined hnull hbool hnumber htext hlist hobject member.2
termination_by sizeOf t
decreasing_by
  · have := List.sizeOf_lt_of_mem ht
    simp
    omega
  · have := List.sizeOf_lt_of_mem hmember
    obtain ⟨key, t⟩ := member
    simp at this ⊢
    omega

section

variable {P : Json → Prop}

theorem forall_jsonOfItems {items : List DataTree} (h : ∀ t ∈ items, P t.json) :
    ∀ json ∈ jsonOfItems items, P json := by
  induction items with
  | nil => exact List.forall_mem_nil _
  | cons t rest ih =>
    obtain ⟨ht, hrest⟩ := List.forall_mem_cons.1 h
    exact List.forall_mem_cons.2 ⟨ht, ih hrest⟩

theorem forall_jsonOfMembers {found : List (String × Json)} {members : List (String × DataTree)}
    (hfound : ∀ member ∈ found, P member.2) (h : ∀ member ∈ members, P member.2.json) :
    ∀ member ∈ jsonOfMembers found members, P member.2 := by
  induction members generalizing found with
  | nil => exact hfound
  | cons first rest ih =>
    obtain ⟨key, t⟩ := first
    obtain ⟨ht, hrest⟩ := List.forall_mem_cons.1 h
    refine ih (fun member hmember => ?_) hrest
    rcases mem_insert hmember with rfl | hmember
    · exact ht
    · exact hfound member hmember

theorem ascending_jsonOfMembers {found : List (String × Json)} (hfound : Ascending found)
    (members : List (String × DataTree)) : Ascending (jsonOfMembers found members) := by
  induction members generalizing found with
  | nil => exact hfound
  | cons first rest ih => exact ih (ascending_insert hfound _ _)

end

theorem document_json (t : DataTree) : t.json.Document := by
  induction t using induct with
  | hundefined => exact .null
  | hnull => exact .null
  | hbool => exact .bool
  | hnumber x => exact document_ofNumber x
  | htext => exact .text
  | hlist items ih => exact .list (forall_jsonOfItems ih)
  | hobject members ih =>
    exact .object (ascending_jsonOfMembers List.Pairwise.nil members)
      (forall_jsonOfMembers (List.forall_mem_nil _) ih)

theorem normItems_eq_self {items : List Json} (h : ∀ json ∈ items, json.norm = json) :
    normItems items = items := by
  induction items with
  | nil => rfl
  | cons json rest ih =>
    obtain ⟨hjson, hrest⟩ := List.forall_mem_cons.1 h
    rw [normItems, hjson, ih hrest]

theorem normMembers_eq_self {members : List (String × Json)}
    (h : ∀ member ∈ members, member.2.norm = member.2) : normMembers members = members := by
  induction members with
  | nil => rfl
  | cons first rest ih =>
    obtain ⟨key, json⟩ := first
    obtain ⟨hjson, hrest⟩ := List.forall_mem_cons.1 h
    rw [normMembers, hjson, ih hrest]

/-- The numbers in what is written have been doubles already. -/
theorem norm_json (t : DataTree) : t.json.norm = t.json := by
  induction t using induct with
  | hundefined | hnull | hbool | htext => rfl
  | hnumber x => exact norm_ofNumber x
  | hlist items ih => exact congrArg Json.list (normItems_eq_self (forall_jsonOfItems ih))
  | hobject members ih =>
    have hall := @forall_jsonOfMembers (fun json => json.norm = json) [] members
      (List.forall_mem_nil _) ih
    exact congrArg Json.object (normMembers_eq_self hall)

theorem depthOfItems_json {items : List DataTree} (h : ∀ t ∈ items, t.json.depth ≤ t.depth) :
    Json.depthOfItems (jsonOfItems items) ≤ depthOfItems items := by
  induction items with
  | nil => exact Nat.le_refl 0
  | cons t rest ih =>
    obtain ⟨ht, hrest⟩ := List.forall_mem_cons.1 h
    have hmore := ih hrest
    simp only [jsonOfItems, Json.depthOfItems, depthOfItems]
    omega

theorem depthOfMembers_json {members : List (String × DataTree)}
    (h : ∀ member ∈ members, member.2.json.depth ≤ member.2.depth)
    (found : List (String × Json)) : Json.depthOfMembers (jsonOfMembers found members) ≤
      max (Json.depthOfMembers found) (depthOfMembers members) := by
  induction members generalizing found with
  | nil => exact Nat.le_max_left _ _
  | cons first rest ih =>
    obtain ⟨key, t⟩ := first
    obtain ⟨ht, hrest⟩ := List.forall_mem_cons.1 h
    have hinsert := depthOfMembers_insert key t.json found
    dsimp only at ht
    have hmore := ih hrest (Json.insert key t.json found)
    simp only [jsonOfMembers, depthOfMembers] at hmore ⊢
    omega

/-- What is written of a tree is no deeper. -/
theorem depth_json (t : DataTree) : t.json.depth ≤ t.depth := by
  induction t using induct with
  | hundefined | hnull | hbool | htext => exact Nat.le_refl 0
  | hnumber x =>
    simp only [json, ofNumber]
    split
    · exact Nat.le_refl 0
    · split <;> exact Nat.le_refl 0
  | hlist items ih => exact depthOfItems_json ih
  | hobject members ih =>
    have hmembers := depthOfMembers_json ih []
    simp only [Json.depthOfMembers, Nat.zero_max] at hmembers
    exact hmembers

theorem sizeOfItems_json {items : List DataTree} (h : ∀ t ∈ items, t.json.size ≤ t.size) :
    Json.sizeOfItems (jsonOfItems items) ≤ sizeOfItems items := by
  induction items with
  | nil => exact Nat.le_refl 0
  | cons t rest ih =>
    obtain ⟨ht, hrest⟩ := List.forall_mem_cons.1 h
    have hmore := ih hrest
    simp only [jsonOfItems, Json.sizeOfItems, sizeOfItems]
    omega

theorem sizeOfMembers_json {members : List (String × DataTree)}
    (h : ∀ member ∈ members, member.2.json.size ≤ member.2.size)
    (found : List (String × Json)) : Json.sizeOfMembers (jsonOfMembers found members) ≤
      Json.sizeOfMembers found + sizeOfMembers members := by
  induction members generalizing found with
  | nil => exact Nat.le_refl _
  | cons first rest ih =>
    obtain ⟨key, t⟩ := first
    obtain ⟨ht, hrest⟩ := List.forall_mem_cons.1 h
    have hinsert := sizeOfMembers_insert key t.json found
    dsimp only at ht
    have hmore := ih hrest (Json.insert key t.json found)
    simp only [jsonOfMembers, sizeOfMembers] at hmore ⊢
    omega

/-- It is no larger either, as a key that comes twice is written once. -/
theorem size_json (t : DataTree) : t.json.size ≤ t.size := by
  induction t using induct with
  | hundefined | hnull | hbool | htext => exact Nat.le_refl _
  | hnumber x =>
    simp only [json, ofNumber]
    split
    · exact Nat.le_refl 1
    · split <;> exact Nat.le_refl 1
  | hlist items ih =>
    have hitems := sizeOfItems_json ih
    simp only [json, Json.size, size]
    omega
  | hobject members ih =>
    have hmembers := sizeOfMembers_json ih []
    simp only [json, Json.size, size, Json.sizeOfMembers] at hmembers ⊢
    omega

end DataTree

end ScriptHost

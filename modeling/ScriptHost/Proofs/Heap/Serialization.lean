import ScriptHost.Heap.Property
import ScriptHost.Proofs.Heap.Cloning
import ScriptHost.Proofs.Heap.Keys

/-!
What an object is written as, against what is read from it. Of several properties of one name the
first would be read and the last would be written, so the two agree where names are distinct.
-/

namespace ScriptHost

namespace Json

theorem lookup_cons (k : String) (v : Json) (rest : List (String × Json)) (key : String) :
    List.lookup key ((k, v) :: rest) = if key = k then some v else rest.lookup key := by
  by_cases hkey : key = k
  · simp [hkey]
  · rw [if_neg hkey, List.lookup_cons, beq_eq_false_iff_ne.2 hkey]

theorem lookup_insert (key : String) (json : Json) (found : List (String × Json)) (other : String) :
    (insert key json found).lookup other =
      if other = key then some json else found.lookup other := by
  induction found with
  | nil => exact lookup_cons key json [] other
  | cons first rest ih =>
    obtain ⟨k, v⟩ := first
    simp only [insert]
    split
    · exact lookup_cons key json _ other
    · split
      · next heq =>
        subst heq
        rw [lookup_cons, lookup_cons]
        split <;> rfl
      · next hne =>
        rw [lookup_cons, lookup_cons, ih]
        by_cases hother : other = k
        · rw [if_pos hother, if_pos hother, if_neg (hother ▸ Ne.symm hne)]
        · rw [if_neg hother, if_neg hother]

end Json

namespace Table

theorem get?_eq_none {α : Type} {t : Table α} {key : String} (h : key ∉ t.keys) :
    t.get? key = none := by
  rw [← Option.not_isSome_iff_eq_none, t.get?_isSome_iff]
  exact h

end Table

namespace Heap

variable {h : Heap} {id : ObjectId}

open DataTree

/-- The value of the name is written last, or not at all. -/
def Writes (h : Heap) (members : List (String × DataTree)) (v : Value)
    (before after : Option Json) : Prop :=
  (v = .undefined → after = before) ∧
    (v ≠ .undefined → ∃ t, after = some t.json ∧ h.Unfolds v t ∧ t.depth < depthOfMembers members ∧
      t.size ≤ sizeOfMembers members)

theorem Writes.cons {members : List (String × DataTree)} {v : Value} {before after : Option Json}
    (hw : h.Writes members v before after) (member : String × DataTree) :
    h.Writes (member :: members) v before after := by
  refine ⟨hw.1, fun hv => ?_⟩
  obtain ⟨t, hafter, ht, hdepth, hsize⟩ := hw.2 hv
  refine ⟨t, hafter, ht, ?_, ?_⟩
  · simp only [depthOfMembers]
    omega
  · simp only [sizeOfMembers]
    omega

theorem writes_jsonOfMembers {table : Table Value} {members : List (String × DataTree)}
    (hmembers : h.UnfoldsMembers table members) (hkeys : table.keys.Nodup)
    (found : List (String × Json)) (key : String) :
    h.Writes members ((table.get? key).getD .undefined) (found.lookup key)
      ((jsonOfMembers found members).lookup key) := by
  induction table generalizing found members with
  | nil =>
    cases hmembers
    exact ⟨fun _ => rfl, fun hv => absurd rfl hv⟩
  | cons first rest ih =>
    obtain ⟨k, v⟩ := first
    obtain ⟨hfresh, hrest⟩ := List.nodup_cons.1 hkeys
    have hnone : Table.get? rest k = none := Table.get?_eq_none hfresh
    rw [Table.get?]
    cases hmembers with
    | skip hmore =>
      have hlater := ih hmore hrest found
      by_cases hk : k = key
      · subst hk
        rw [hnone] at hlater
        rw [if_pos rfl]
        exact hlater
      · rw [if_neg hk]
        exact hlater
    | @keep _ _ t _ members hv ht hmore =>
      have hlater := ih hmore hrest (Json.insert k t.json found)
      rw [Json.lookup_insert] at hlater
      by_cases hk : k = key
      · subst hk
        rw [hnone, if_pos rfl] at hlater
        rw [if_pos rfl]
        refine ⟨fun hundefined => absurd hundefined hv, fun _ => ⟨t, hlater.1 rfl, ht, ?_, ?_⟩⟩
        · simp only [depthOfMembers]
          omega
        · simp only [sizeOfMembers]
          omega
      · rw [if_neg (Ne.symm hk)] at hlater
        rw [if_neg hk]
        exact hlater.cons (k, t)

/-! ## Objects -/

theorem propertyOf_of_kind {o : HeapObject} (hkind : o.items? = none) (key : String) :
    propertyOf o key = (o.get? key).getD .undefined := by
  rw [propertyOf, hkind]

theorem Unfolds.members {t : DataTree} (ht : h.Unfolds (.object id) t)
    (hitems : (h.object id).items? = none) :
    ∃ members, t = .object members ∧ h.UnfoldsMembers (h.object id).properties members := by
  cases ht with
  | array hkind => simp [HeapObject.items?, hkind] at hitems
  | ordinary _ hmembers => exact ⟨_, rfl, hmembers⟩
  | error _ hmembers => exact ⟨_, rfl, hmembers⟩

/-- What is written under a name is what is read by that name, unless that is undefined. -/
theorem toJson_members (hid : (h.object id).Distinct) (hitems : (h.object id).items? = none)
    {json : Json} (hjson : h.toJson (.object id) = .ok json) :
    ∃ members, json = .object members ∧ Json.Ascending members ∧ ∀ key,
      ((members.lookup key).isSome ↔ propertyOf (h.object id) key ≠ .undefined) ∧
      ∀ entry, members.lookup key = some entry →
        h.toJson (propertyOf (h.object id) key) = .ok entry := by
  obtain ⟨t, ht, hdepth, hsize, rfl⟩ := toJson_eq_ok_iff.1 hjson
  obtain ⟨members, rfl, hmembers⟩ := ht.members hitems
  refine ⟨_, rfl, ascending_jsonOfMembers List.Pairwise.nil members, fun key => ?_⟩
  obtain ⟨hskipped, hkept⟩ := writes_jsonOfMembers hmembers hid [] key
  rw [propertyOf_of_kind hitems]
  by_cases hv : (HeapObject.get? (h.object id) key).getD .undefined = .undefined
  · have hnone : List.lookup key _ = none := hskipped hv
    rw [hnone]
    exact ⟨by simp [hv], by simp⟩
  · obtain ⟨u, hlookup, hu, hless, hfewer⟩ := hkept hv
    rw [depth] at hdepth
    rw [size] at hsize
    rw [hlookup]
    refine ⟨⟨fun _ => hv, fun _ => rfl⟩, fun entry hentry => ?_⟩
    obtain rfl := Option.some.inj hentry
    exact toJson_eq_ok_iff.2 ⟨u, hu, by omega, by omega, rfl⟩

end Heap

end ScriptHost

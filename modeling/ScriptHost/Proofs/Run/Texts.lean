import ScriptHost.Proofs.Heap.Texts
import ScriptHost.Proofs.Run.Limit

/-!
Scripts and the text of a value: where the display is faithful, and what comes of it there in
property keys, comparisons, sums and joins.
-/

namespace ScriptHost

namespace Heap

variable {h : Heap}

theorem display_of_none (hnone : h.maxString = 0) (v : Value) : h.display v = "" := by
  rw [display, paint.eq_def, hnone]
  rfl

theorem display_string (hsome : h.maxString ≠ 0) (t : String) : h.display (.string t) = t := by
  obtain ⟨spare, hspare⟩ := Nat.exists_eq_succ_of_ne_zero hsome
  unfold display
  rw [hspare, paint_look (Nat.zero_le _)]
  exact String.empty_append

/-- The text of an object is displayed as it is. -/
theorem display_toPrimitive (h : Heap) (v : Value) :
    h.display (h.toPrimitive v) = h.display v := by
  cases v with
  | object id =>
    by_cases hnone : h.maxString = 0
    · rw [display_of_none hnone, display_of_none hnone]
    · exact display_string hnone _
  | _ => rfl

theorem Shows.tells {v : Value} (hv : h.Shows v) :
    Tells h.maxString (h.display v) (h.wholeText v) :=
  (h.tells_display_iff v).2 hv

theorem tells_propertyKey {v : Value} (hv : h.Shows v) :
    Tells h.maxString (h.propertyKey v) (h.wholeText v) := by
  cases v with
  | number x => exact .refl h.maxString (Number.text x)
  | _ => exact hv.tells

theorem Shows.part {v : Value} (hv : h.Shows v) :
    Tells h.maxString (h.elementText v) (partText h.wholeText v) := by
  unfold elementText partText
  split
  · exact .refl h.maxString ""
  · exact hv.tells

theorem tells_join {id : ObjectId} {items : Array Value}
    (hitems : (h.object id).items? = some items) (hall : ∀ v ∈ items, h.Shows v)
    (separator : String) :
    Tells h.maxString (h.join id separator)
      (separator.intercalate (items.toList.map (partText h.wholeText))) := by
  have hjoined := Tells.of_eq_or_long (h.join_whole id separator hitems)
  refine hjoined.trans (.intercalate ?_)
  rw [List.forall₂_map_left_iff, List.forall₂_map_right_iff, List.forall₂_same]
  intro v hv
  exact (hall v (Array.mem_toList_iff.1 hv)).part

theorem toPrimitive_of_isText {v : Value} (htext : (h.toPrimitive v).isText = true)
    (hv : h.Shows v) (hfits : (h.wholeText v).utf8ByteSize ≤ h.maxString) :
    h.toPrimitive v = .string (h.wholeText v) := by
  cases v with
  | object id => exact congrArg Value.string (hv.tells.eq hfits)
  | string t => rfl
  | _ => exact absurd htext Bool.false_ne_true

/-- Texts are compared as they are, unless one is too long for a string. -/
theorem compare_of_isText {left right : Value} (hleft : (h.toPrimitive left).isText = true)
    (hright : (h.toPrimitive right).isText = true) (hl : h.Shows left) (hr : h.Shows right)
    (hlfits : (h.wholeText left).utf8ByteSize ≤ h.maxString)
    (hrfits : (h.wholeText right).utf8ByteSize ≤ h.maxString) :
    h.compare? left right = some (compare (h.wholeText left) (h.wholeText right)) := by
  rw [compare?, toPrimitive_of_isText hleft hl hlfits, toPrimitive_of_isText hright hr hrfits]

end Heap

namespace Run

theorem makes_sum {left right : Value} {s : Setting} {m : Machine} (hs : m.heap.Sound)
    (htext : (m.heap.toPrimitive left).isText ∨ (m.heap.toPrimitive right).isText)
    (hl : m.heap.Shows left) (hr : m.heap.Shows right) :
    Makes (m.heap.wholeText left ++ m.heap.wholeText right) m (binary .add left right s m) := by
  have hmakes := Builds.makes (s := s) (.concatenation htext) hs
  rw [m.heap.display_toPrimitive, m.heap.display_toPrimitive] at hmakes
  exact hmakes.whole (hl.tells.append hr.tells).eq_or_long

/--
The display of a value is its text, or as much too long as that is, if no more values have to be
looked at for it than a string may have bytes, or if those that are looked at make it too long. It
is not otherwise. Where it is, so are property keys, what is compared, and joins, and a sum is the
whole text or throws.
-/
theorem display_faithful (h : Heap) :
    (∀ v, Tells h.maxString (h.display v) (h.shownText v)) ∧
    (∀ v, Tells h.maxString (h.display v) (h.wholeText v) ↔ h.Shows v) ∧
    (∀ v, h.looks v ≤ h.maxString → h.Shows v) ∧
    (∀ v, h.Shows v → Tells h.maxString (h.propertyKey v) (h.wholeText v)) ∧
    (∀ id, h.Shows (.object id) → ∃ text, h.toPrimitive (.object id) = .string text ∧
      Tells h.maxString text (h.wholeText (.object id))) ∧
    (∀ left right, (h.toPrimitive left).isText → (h.toPrimitive right).isText →
      h.Shows left → h.Shows right → (h.wholeText left).utf8ByteSize ≤ h.maxString →
      (h.wholeText right).utf8ByteSize ≤ h.maxString →
      h.compare? left right = some (compare (h.wholeText left) (h.wholeText right))) ∧
    (∀ id items separator, (h.object id).items? = some items → (∀ v ∈ items, h.Shows v) →
      Tells h.maxString (h.join id separator)
        (separator.intercalate (items.toList.map (Heap.partText h.wholeText)))) ∧
    ∀ (left right : Value) (s : Setting) (m : Machine), m.heap = h → h.Sound →
      (h.toPrimitive left).isText ∨ (h.toPrimitive right).isText →
      h.Shows left → h.Shows right →
      Makes (h.wholeText left ++ h.wholeText right) m (binary .add left right s m) := by
  refine ⟨h.display_shown, h.tells_display_iff, fun v => .of_looks,
    fun v => Heap.tells_propertyKey, fun id hid => ⟨h.display (.object id), rfl, hid.tells⟩,
    fun left right => Heap.compare_of_isText,
    fun id items separator hitems hall => Heap.tells_join hitems hall separator, ?_⟩
  rintro left right s m rfl
  exact makes_sum

/-- Five values are looked at for the text of two arrays in a third one. -/
theorem display_faithful_nested :
    let rows := ["a", "b"].foldl (fun h t => (h.allocateHost ⟨.array #[.string t], []⟩).2)
      (Heap.empty 0 { stringLength := 8 })
    let h := (rows.allocateHost ⟨.array #[.object ⟨0, 0, 0⟩, .object ⟨0, 1, 0⟩], []⟩).2
    h.looks (.object ⟨0, 2, 0⟩) ≤ h.maxString ∧
      Tells h.maxString (h.display (.object ⟨0, 2, 0⟩)) (h.wholeText (.object ⟨0, 2, 0⟩)) ∧
      h.wholeText (.object ⟨0, 2, 0⟩) = "a,b" := by
  intro rows h
  have hlooks : h.looks (.object ⟨0, 2, 0⟩) ≤ h.maxString := by decide +kernel
  have hwhole : h.wholeText (.object ⟨0, 2, 0⟩) = "a,b" := by decide +kernel
  obtain ⟨-, htells, hshows, -⟩ := display_faithful h
  exact ⟨hlooks, (htells _).2 (hshows _ hlooks), hwhole⟩

/-- Nine are looked at for that of four, which is as short as seven bytes, but is cut off. -/
theorem display_cut_short :
    let rows := ["a", "b", "c", "d"].foldl
      (fun h t => (h.allocateHost ⟨.array #[.string t], []⟩).2)
      (Heap.empty 0 { stringLength := 8 })
    let h := (rows.allocateHost ⟨.array #[.object ⟨0, 0, 0⟩, .object ⟨0, 1, 0⟩,
      .object ⟨0, 2, 0⟩, .object ⟨0, 3, 0⟩], []⟩).2
    h.maxString = 8 ∧ h.wholeText (.object ⟨0, 4, 0⟩) = "a,b,c,d" ∧
      h.display (.object ⟨0, 4, 0⟩) = "a,b,c," ∧
      ¬ Tells h.maxString (h.display (.object ⟨0, 4, 0⟩)) (h.wholeText (.object ⟨0, 4, 0⟩)) := by
  intro rows h
  have hlimit : h.maxString = 8 := by decide +kernel
  have hwhole : h.wholeText (.object ⟨0, 4, 0⟩) = "a,b,c,d" := by decide +kernel
  have hdisplay : h.display (.object ⟨0, 4, 0⟩) = "a,b,c," := by decide +kernel
  refine ⟨hlimit, hwhole, hdisplay, fun htells => ?_⟩
  have heq := htells.eq (by rw [hlimit, hwhole]; decide)
  rw [hwhole, hdisplay] at heq
  exact absurd heq (by decide)

end Run

end ScriptHost

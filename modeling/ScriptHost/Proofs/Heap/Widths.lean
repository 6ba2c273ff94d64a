import ScriptHost.Proofs.Heap.Lengths
import ScriptHost.Proofs.Heap.Texts
import ScriptHost.Proofs.Number.Widths

/-!
How long the display of a value can be. What is painted on one canvas runs past the limit by one
piece at most, but the parts of an error have canvases of their own, and these are put together
without a look at their lengths.
-/

namespace ScriptHost

/-- The strings in an object and the name of a function are within the limit. -/
structure HeapObject.Slim (n : Nat) (o : HeapObject) : Prop where
  values : ∀ v ∈ o.values, v.Fits n
  name : ∀ code closure, o.kind = .function code closure → (code.name.getD "").utf8ByteSize ≤ n

namespace HeapObject.Slim

variable {n : Nat} {o : HeapObject}

theorem items (ho : o.Slim n) : ∀ v ∈ o.items, v.Fits n :=
  fun v hv => ho.values v (List.mem_append_left _ hv)

theorem get? (ho : o.Slim n) {key : String} {v : Value} (hv : o.get? key = some v) : v.Fits n :=
  ho.values v (List.mem_append_right _ (List.mem_map.2 ⟨_, Table.mem_of_get? hv, rfl⟩))

end HeapObject.Slim

namespace Heap

/-- The strings that a heap stores and the names of its functions are within its limit. -/
def Slim (h : Heap) : Prop :=
  ∀ id, (h.object id).Slim h.maxString

/-! ## Errors shown within errors -/

def objectNesting (nesting : Value → Nat) (o : HeapObject) : Nat :=
  match o.kind with
  | .array items => items.toList.foldr (fun item deepest => max (nesting item) deepest) 0
  | .error _ => 1 + max ((o.get? "name").elim 0 nesting) ((o.get? "message").elim 0 nesting)
  | _ => 0

def nestingWithin (h : Heap) : Nat → Value → Nat
  | room + 1, .object id => objectNesting (nestingWithin h room) (h.object id)
  | _, _ => 0

/-- How deeply errors are shown within the names and messages of errors, the outermost counted. -/
def errorNesting (h : Heap) (v : Value) : Nat :=
  h.nestingWithin (nestingLimit + 1) v

theorem nesting_le_of_mem {nesting : Value → Nat} {item : Value} {items : List Value}
    (hitem : item ∈ items) :
    nesting item ≤ items.foldr (fun item deepest => max (nesting item) deepest) 0 := by
  induction items with
  | nil => exact nomatch hitem
  | cons first rest ih =>
    rcases List.mem_cons.1 hitem with rfl | hrest
    · exact Nat.le_max_left _ _
    · exact Nat.le_trans (ih hrest) (Nat.le_max_right _ _)

/-! ## Pieces -/

/-- The most that is written for a value by itself. -/
def pieceWidth (limit : Nat) : Nat :=
  max (limit + 22) 327

theorem primitive_le {limit : Nat} {v : Value} (hv : v.Fits limit) :
    (v.primitiveText?.getD "").utf8ByteSize ≤ pieceWidth limit := by
  unfold pieceWidth
  cases v with
  | undefined | null => exact Nat.le_trans (by decide) (Nat.le_max_right _ _)
  | bool b => cases b <;> exact Nat.le_trans (by decide) (Nat.le_max_right _ _)
  | number x => exact Nat.le_trans (Number.utf8ByteSize_text x) (Nat.le_max_right _ _)
  | string s => exact Nat.le_trans (Nat.le_add_right_of_le hv) (Nat.le_max_left _ _)
  | object id => exact Nat.zero_le _

theorem function_le {limit : Nat} {name : Option String}
    (hname : (name.getD "").utf8ByteSize ≤ limit) :
    (functionText name).utf8ByteSize ≤ pieceWidth limit := by
  have hbefore : "function ".utf8ByteSize = 9 := rfl
  have hbehind : "() \x7b [code] \x7d".utf8ByteSize = 13 := rfl
  have hpiece : limit + 22 ≤ pieceWidth limit := Nat.le_max_left _ _
  simp only [functionText, String.utf8ByteSize_append, hbefore, hbehind]
  omega

theorem kindName_le (kind : ErrorKind) : kind.name.utf8ByteSize ≤ 14 := by
  cases kind <;> decide

theorem utf8ByteSize_titled (name message : String) :
    (titled name message).utf8ByteSize ≤ name.utf8ByteSize + 2 + message.utf8ByteSize := by
  have hcolon : ": ".utf8ByteSize = 2 := rfl
  unfold titled
  split
  · omega
  · simp only [String.utf8ByteSize_append, hcolon]
    omega

/-! ## By the nesting of errors -/

/-- The longest display, by how deeply errors are nested. -/
def longest (limit : Nat) : Nat → Nat
  | 0 => limit + pieceWidth limit
  | nesting + 1 => limit + (2 * longest limit nesting + 2)

theorem longest_eq (limit nesting : Nat) :
    longest limit nesting + (limit + 2) = 2 ^ nesting * (2 * limit + pieceWidth limit + 2) := by
  induction nesting with
  | zero =>
    simp only [longest]
    omega
  | succ nesting ih =>
    rw [Nat.pow_succ', Nat.mul_assoc, ← ih]
    simp only [longest]
    omega

theorem longest_mono (limit : Nat) {a b : Nat} (h : a ≤ b) : longest limit a ≤ longest limit b := by
  induction h with
  | refl => exact Nat.le_refl _
  | step _ ih =>
    simp only [longest]
    omega

theorem lt_longest (limit nesting : Nat) : limit + pieceWidth limit ≤ longest limit nesting :=
  longest_mono limit (Nat.zero_le nesting)

/-- What is painted keeps within the length that belongs to the nesting of errors. -/
def Contains (limit : Nat) (paint : Painter) (nesting : Value → Nat) : Prop :=
  ∀ v, v.Fits limit → ∀ c : Canvas,
    (paint v c).text.utf8ByteSize ≤ max c.text.utf8ByteSize (longest limit (nesting v))

section Nested

variable {limit : Nat} {paint : Painter} {nesting : Value → Nat}

theorem Contains.items (hp : Contains limit paint nesting) {items : List Value} {deepest : Nat}
    (hfits : ∀ v ∈ items, v.Fits limit) (hdeepest : ∀ v ∈ items, nesting v ≤ deepest)
    (first : Bool) (c : Canvas) :
    (paintItems limit paint first items c).text.utf8ByteSize ≤
      max c.text.utf8ByteSize (longest limit deepest) := by
  induction items generalizing first c with
  | nil => exact Nat.le_max_left _ _
  | cons item rest ih =>
    obtain ⟨hitem, hrest⟩ := List.forall_mem_cons.1 hfits
    obtain ⟨hitem', hrest'⟩ := List.forall_mem_cons.1 hdeepest
    have hlongest := longest_mono limit hitem'
    have hpiece := lt_longest limit deepest
    have hwide : 327 ≤ pieceWidth limit := Nat.le_max_right _ _
    have hcomma : ",".utf8ByteSize = 1 := rfl
    rw [paintItems]
    split
    · exact Nat.le_max_left _ _
    · next hroom =>
      dsimp only
      rw [Canvas.isFull_iff] at hroom
      have hmark : (if first then c else c.write ",").text.utf8ByteSize ≤ limit + 1 := by
        split
        · omega
        · simp only [Canvas.write, String.utf8ByteSize_append, hcomma]
          omega
      have hpart := hp item hitem (if first then c else c.write ",")
      have hmore := ih hrest hrest' false
      cases item.isNullish with
      | true =>
        have hmore := hmore (if first then c else c.write ",")
        simp only [if_true]
        omega
      | false =>
        have hmore := hmore (paint item (if first then c else c.write ","))
        simp only [Bool.false_eq_true, if_false]
        omega

theorem Contains.part (hp : Contains limit paint nesting) {part : Option Value} {deepest : Nat}
    (hfits : ∀ v ∈ part, v.Fits limit) (hdeepest : part.elim 0 nesting ≤ deepest)
    (visits : Nat) :
    (paintPart paint part visits).text.utf8ByteSize ≤ longest limit deepest := by
  cases part with
  | none => exact Nat.zero_le _
  | some v =>
    have hpart := hp v (hfits v rfl) ⟨"", visits⟩
    have hlongest := longest_mono limit hdeepest
    have hnone : "".utf8ByteSize = 0 := rfl
    simp only [Option.elim_some, hnone] at hpart hlongest
    simp only [paintPart]
    omega

theorem Contains.error (hp : Contains limit paint nesting) {o : HeapObject} (ho : o.Slim limit)
    (kind : ErrorKind) {c : Canvas} (hc : c.text.utf8ByteSize ≤ limit) :
    (paintError paint kind o c).text.utf8ByteSize ≤
      longest limit
        (1 + max ((o.get? "name").elim 0 nesting) ((o.get? "message").elim 0 nesting)) := by
  have hname := hp.part (fun v hv => ho.get? hv)
    (Nat.le_max_left ((o.get? "name").elim 0 nesting) ((o.get? "message").elim 0 nesting))
  have hmessage := hp.part (fun v hv => ho.get? hv)
    (Nat.le_max_right ((o.get? "name").elim 0 nesting) ((o.get? "message").elim 0 nesting))
  generalize max ((o.get? "name").elim 0 nesting) ((o.get? "message").elim 0 nesting) = deepest at *
  have hkind := kindName_le kind
  have hpiece := lt_longest limit deepest
  have hwide : 327 ≤ pieceWidth limit := Nat.le_max_right _ _
  have htitled := utf8ByteSize_titled
  rw [paintError_titled, Nat.add_comm 1]
  simp only [longest, String.utf8ByteSize_append]
  split
  · have htext := htitled (paintPart paint (o.get? "name") c.visits).text
      (paintPart paint (o.get? "message") (paintPart paint (o.get? "name") c.visits).visits).text
    have hname := hname c.visits
    have hmessage := hmessage (paintPart paint (o.get? "name") c.visits).visits
    omega
  · have htext := htitled kind.name (paintPart paint (o.get? "message") c.visits).text
    have hmessage := hmessage c.visits
    dsimp only
    omega

theorem Contains.object (hp : Contains limit paint nesting) {o : HeapObject} (ho : o.Slim limit)
    {c : Canvas} (hc : c.text.utf8ByteSize ≤ limit) :
    (paintObject limit paint o c).text.utf8ByteSize ≤ longest limit (objectNesting nesting o) := by
  have hwide : 327 ≤ pieceWidth limit := Nat.le_max_right _ _
  have hpiece (piece : String) (hle : piece.utf8ByteSize ≤ pieceWidth limit) :
      (c.write piece).text.utf8ByteSize ≤ longest limit 0 := by
    simp only [Canvas.write, String.utf8ByteSize_append, longest]
    omega
  obtain ⟨kind, properties⟩ := o
  cases kind with
  | ordinary => exact hpiece _ (Nat.le_trans (by decide) hwide)
  | array items =>
    have hitems := hp.items ho.items (fun v hv => nesting_le_of_mem hv) true c
    have hlongest := lt_longest limit (objectNesting nesting ⟨.array items, properties⟩)
    exact Nat.le_trans hitems (Nat.max_le.2 ⟨by omega, Nat.le_refl _⟩)
  | function code closure => exact hpiece _ (function_le (ho.name code closure rfl))
  | native => exact hpiece _ (Nat.le_trans (by decide) hwide)
  | error kind => exact hp.error ho kind hc

end Nested

/-- A canvas stays as it is once it is full or no value may be looked at any more. -/
theorem paint_same_or_look (h : Heap) (room : Nat) (v : Value) (c : Canvas) :
    h.paint room v c = c ∨
      ∃ text visits, c = ⟨text, visits + 1⟩ ∧ text.utf8ByteSize ≤ h.maxString := by
  obtain ⟨text, visits⟩ := c
  by_cases hstop : (Canvas.isFull ⟨text, visits⟩ h.maxString || visits = 0) = true
  · exact .inl (by rw [paint.eq_def, if_pos hstop])
  · simp only [Bool.or_eq_true, Canvas.isFull_iff, decide_eq_true_eq, not_or, Nat.not_lt] at hstop
    obtain ⟨visits, rfl⟩ := Nat.exists_eq_succ_of_ne_zero hstop.2
    exact .inr ⟨text, visits, rfl, hstop.1⟩

theorem contains_paint {h : Heap} (hh : h.Slim) (room : Nat) :
    Contains h.maxString (h.paint room) (h.nestingWithin room) := by
  induction room with
  | zero =>
    intro v hv c
    rcases h.paint_same_or_look 0 v c with hsame | ⟨text, visits, rfl, hfits⟩
    · rw [hsame]
      exact Nat.le_max_left _ _
    · have hpiece := primitive_le hv
      rw [paint_look hfits]
      cases v with
      | object id => exact Nat.le_max_left _ _
      | _ =>
        simp only [String.utf8ByteSize_append, nestingWithin, longest]
        omega
  | succ room ih =>
    intro v hv c
    rcases h.paint_same_or_look (room + 1) v c with hsame | ⟨text, visits, rfl, hfits⟩
    · rw [hsame]
      exact Nat.le_max_left _ _
    · have hpiece := primitive_le hv
      rw [paint_look hfits]
      cases v with
      | object id => exact Nat.le_trans (ih.object (hh id) hfits) (Nat.le_max_right _ _)
      | _ =>
        simp only [String.utf8ByteSize_append, nestingWithin, longest]
        omega

/-! ## By the number of looks -/

/-- Each look taken pays for one piece of what is painted. -/
def Thrifty (limit : Nat) (paint : Painter) : Prop :=
  ∀ v, v.Fits limit → ∀ c : Canvas, (paint v c).visits ≤ c.visits ∧
    (paint v c).text.utf8ByteSize + (paint v c).visits * pieceWidth limit ≤
      c.text.utf8ByteSize + c.visits * pieceWidth limit

section Looked

variable {limit : Nat} {paint : Painter}

/-- The commas are not paid for, but none is written past the limit. -/
theorem Thrifty.items (hp : Thrifty limit paint) {items : List Value}
    (hfits : ∀ v ∈ items, v.Fits limit) (first : Bool) (c : Canvas) :
    (paintItems limit paint first items c).visits ≤ c.visits ∧
      (paintItems limit paint first items c).text.utf8ByteSize +
          (paintItems limit paint first items c).visits * pieceWidth limit ≤
        max c.text.utf8ByteSize (limit + 1) + c.visits * pieceWidth limit := by
  induction items generalizing first c with
  | nil => exact ⟨Nat.le_refl _, Nat.add_le_add_right (Nat.le_max_left _ _) _⟩
  | cons item rest ih =>
    obtain ⟨hitem, hrest⟩ := List.forall_mem_cons.1 hfits
    have hcomma : ",".utf8ByteSize = 1 := rfl
    rw [paintItems]
    split
    · exact ⟨Nat.le_refl _, Nat.add_le_add_right (Nat.le_max_left _ _) _⟩
    · next hroom =>
      dsimp only
      rw [Canvas.isFull_iff] at hroom
      have hmark : (if first then c else c.write ",").text.utf8ByteSize ≤ limit + 1 ∧
          (if first then c else c.write ",").visits = c.visits := by
        split
        · exact ⟨by omega, rfl⟩
        · refine ⟨?_, rfl⟩
          simp only [Canvas.write, String.utf8ByteSize_append, hcomma]
          omega
      generalize (if first then c else c.write ",") = marked at hmark ⊢
      obtain ⟨hmarked, hvisits⟩ := hmark
      cases item.isNullish with
      | true =>
        have hmore := ih hrest false marked
        simp only [if_true, ← hvisits]
        omega
      | false =>
        obtain ⟨hfewer, hpart⟩ := hp item hitem marked
        have hmore := ih hrest false (paint item marked)
        have hpaid := Nat.mul_le_mul_right (pieceWidth limit) hfewer
        simp only [Bool.false_eq_true, if_false, ← hvisits]
        omega

theorem Thrifty.part (hp : Thrifty limit paint) {part : Option Value}
    (hfits : ∀ v ∈ part, v.Fits limit) (visits : Nat) :
    (paintPart paint part visits).visits ≤ visits ∧
      (paintPart paint part visits).text.utf8ByteSize +
          (paintPart paint part visits).visits * pieceWidth limit ≤ visits * pieceWidth limit := by
  cases part with
  | none => exact ⟨Nat.le_refl _, Nat.le_of_eq (Nat.zero_add _)⟩
  | some v =>
    have hpart := hp v (hfits v rfl) ⟨"", visits⟩
    have hnone : "".utf8ByteSize = 0 := rfl
    rw [hnone, Nat.zero_add] at hpart
    exact hpart

theorem Thrifty.error (hp : Thrifty limit paint) {o : HeapObject} (ho : o.Slim limit)
    (kind : ErrorKind) (c : Canvas) :
    (paintError paint kind o c).visits ≤ c.visits ∧
      (paintError paint kind o c).text.utf8ByteSize +
          (paintError paint kind o c).visits * pieceWidth limit ≤
        c.text.utf8ByteSize + (c.visits + 1) * pieceWidth limit := by
  have hname := hp.part (fun v (hv : o.get? "name" = some v) => ho.get? hv) c.visits
  have hmessage := hp.part fun v (hv : o.get? "message" = some v) => ho.get? hv
  have hkind := kindName_le kind
  have hwide : 327 ≤ pieceWidth limit := Nat.le_max_right _ _
  rw [paintError_titled]
  simp only [String.utf8ByteSize_append, Nat.succ_mul]
  split
  · generalize paintPart paint (o.get? "name") c.visits = name at hname ⊢
    have hmessage := hmessage name.visits
    have htext :=
      utf8ByteSize_titled name.text (paintPart paint (o.get? "message") name.visits).text
    omega
  · have hmessage := hmessage c.visits
    have htext := utf8ByteSize_titled kind.name (paintPart paint (o.get? "message") c.visits).text
    dsimp only
    omega

theorem Thrifty.object (hp : Thrifty limit paint) {o : HeapObject} (ho : o.Slim limit)
    {c : Canvas} (hc : c.text.utf8ByteSize ≤ limit) :
    (paintObject limit paint o c).visits ≤ c.visits ∧
      (paintObject limit paint o c).text.utf8ByteSize +
          (paintObject limit paint o c).visits * pieceWidth limit ≤
        c.text.utf8ByteSize + (c.visits + 1) * pieceWidth limit := by
  have hwide : 327 ≤ pieceWidth limit := Nat.le_max_right _ _
  have hpiece (piece : String) (hle : piece.utf8ByteSize ≤ pieceWidth limit) :
      (c.write piece).visits ≤ c.visits ∧
        (c.write piece).text.utf8ByteSize + (c.write piece).visits * pieceWidth limit ≤
          c.text.utf8ByteSize + (c.visits + 1) * pieceWidth limit := by
    simp only [Canvas.write, String.utf8ByteSize_append, Nat.succ_mul]
    omega
  obtain ⟨kind, properties⟩ := o
  cases kind with
  | ordinary => exact hpiece _ (Nat.le_trans (by decide) hwide)
  | array items =>
    have hitems := hp.items ho.items true c
    have hlimit : limit + 22 ≤ pieceWidth limit := Nat.le_max_left _ _
    refine ⟨hitems.1, Nat.le_trans hitems.2 ?_⟩
    rw [Nat.succ_mul]
    omega
  | function code closure => exact hpiece _ (function_le (ho.name code closure rfl))
  | native => exact hpiece _ (Nat.le_trans (by decide) hwide)
  | error kind => exact hp.error ho kind c

end Looked

theorem thrifty_paint {h : Heap} (hh : h.Slim) (room : Nat) :
    Thrifty h.maxString (h.paint room) := by
  have hprimitive {v : Value} (hv : v.Fits h.maxString) (text : String) (visits : Nat) :
      (text ++ v.primitiveText?.getD "").utf8ByteSize + visits * pieceWidth h.maxString ≤
        text.utf8ByteSize + (visits + 1) * pieceWidth h.maxString := by
    have hpiece := primitive_le hv
    rw [String.utf8ByteSize_append, Nat.succ_mul]
    omega
  induction room with
  | zero =>
    intro v hv c
    rcases h.paint_same_or_look 0 v c with hsame | ⟨text, visits, rfl, hfits⟩
    · rw [hsame]
      exact ⟨Nat.le_refl _, Nat.le_refl _⟩
    · rw [paint_look hfits]
      cases v with
      | object id =>
        exact ⟨Nat.le_succ _, Nat.add_le_add_left (Nat.mul_le_mul_right _ (Nat.le_succ _)) _⟩
      | _ => exact ⟨Nat.le_succ _, hprimitive hv text visits⟩
  | succ room ih =>
    intro v hv c
    rcases h.paint_same_or_look (room + 1) v c with hsame | ⟨text, visits, rfl, hfits⟩
    · rw [hsame]
      exact ⟨Nat.le_refl _, Nat.le_refl _⟩
    · rw [paint_look hfits]
      cases v with
      | object id =>
        obtain ⟨hfewer, hpaid⟩ := Thrifty.object ih (hh id) (c := ⟨text, visits⟩) hfits
        exact ⟨Nat.le_succ_of_le hfewer, hpaid⟩
      | _ => exact ⟨Nat.le_succ _, hprimitive hv text visits⟩

/-! ## The display of a value -/

theorem display_le_longest {h : Heap} {v : Value} (hh : h.Slim) (hv : v.Fits h.maxString) :
    (h.display v).utf8ByteSize ≤ longest h.maxString (h.errorNesting v) := by
  have hpainted := contains_paint hh (nestingLimit + 1) v hv ⟨"", h.maxString⟩
  have hnone : "".utf8ByteSize = 0 := rfl
  rw [hnone, Nat.zero_max] at hpainted
  exact hpainted

theorem display_le_looks {h : Heap} {v : Value} (hh : h.Slim) (hv : v.Fits h.maxString) :
    (h.display v).utf8ByteSize ≤ h.maxString * pieceWidth h.maxString := by
  have hpainted := (thrifty_paint hh (nestingLimit + 1) v hv ⟨"", h.maxString⟩).2
  have hnone : "".utf8ByteSize = 0 := rfl
  rw [hnone, Nat.zero_add] at hpainted
  exact Nat.le_trans (Nat.le_add_right _ _) hpainted

theorem longest_one {limit : Nat} (hlimit : 80 ≤ limit) : longest limit 1 ≤ 8 * limit + 256 := by
  simp only [longest, pieceWidth]
  omega

/--
The display of a value stays near the limit when no error is shown within another. Each error
within an error doubles its length at most, up to what the looks allow.
-/
theorem display_bounded {h : Heap} {v : Value} (hh : h.Slim) (hv : v.Fits h.maxString) :
    (80 ≤ h.maxString → h.errorNesting v ≤ 1 →
      (h.display v).utf8ByteSize ≤ 8 * h.maxString + 256) ∧
    (h.display v).utf8ByteSize + (h.maxString + 2) ≤
      2 ^ h.errorNesting v * (2 * h.maxString + max (h.maxString + 22) 327 + 2) ∧
    (h.display v).utf8ByteSize ≤ h.maxString * max (h.maxString + 22) 327 := by
  have hlongest := display_le_longest hh hv
  refine ⟨fun hlimit hnesting => ?_, ?_, display_le_looks hh hv⟩
  · exact Nat.le_trans hlongest (Nat.le_trans (longest_mono _ hnesting) (longest_one hlimit))
  · exact Nat.le_trans (Nat.add_le_add_right hlongest _) (Nat.le_of_eq (longest_eq _ _))

section Examples

theorem Slim.of_places {h : Heap}
    (hplaces : ∀ slot ∈ h.places, ∀ o, slot.object = some o → o.Slim h.maxString)
    (htombstone : h.tombstone.Slim h.maxString) : h.Slim := by
  intro id
  unfold object
  cases hfound : h.find? id with
  | none => exact htombstone
  | some o =>
    unfold find? at hfound
    split at hfound
    · split at hfound
      · next slot hslot =>
        split at hfound
        · exact hplaces slot (Array.mem_of_getElem? hslot) o hfound
        · exact nomatch hfound
      · exact nomatch hfound
    · exact nomatch hfound

theorem slim_empty (arena : Nat) (limits : Limits) : (empty arena limits).Slim :=
  .of_places (fun _ hslot => nomatch hslot) ⟨fun _ hv => (nomatch hv), nofun⟩

/-- An error whose name and message are the same. -/
def echoError (part : Value) : HeapObject :=
  ⟨.error .error, [("name", part), ("message", part)]⟩

theorem slim_echoError {limit : Nat} {part : Value} (hpart : part.Fits limit) :
    (echoError part).Slim limit := by
  refine ⟨fun v hv => ?_, nofun⟩
  have heq : v = part := by simpa [echoError, HeapObject.values, HeapObject.items] using hv
  exact heq ▸ hpart

/-- Four errors, each the name and the message of the one behind it. -/
def echoes : Heap :=
  { empty 0 { stringLength := 80 } with
    places := #[.string (String.ofList (List.replicate 80 'x')),
      .object ⟨0, 0, 0⟩, .object ⟨0, 1, 0⟩, .object ⟨0, 2, 0⟩].map
        fun part => ⟨0, 0, some (echoError part)⟩ }

theorem slim_echoes : echoes.Slim := by
  refine .of_places (fun slot hslot o ho => ?_) ⟨fun _ hv => (nomatch hv), nofun⟩
  obtain ⟨part, hpart, rfl⟩ := Array.mem_map.1 hslot
  rw [← Option.some.inj ho]
  refine slim_echoError ?_
  simp only [List.mem_toArray, List.mem_cons, List.not_mem_nil, or_false] at hpart
  rcases hpart with rfl | rfl | rfl | rfl
  · exact (by decide +kernel : (String.ofList (List.replicate 80 'x')).utf8ByteSize ≤ 80)
  all_goals trivial

end Examples

theorem display_bounded_echo :
    (echoes.display (.object ⟨0, 0, 0⟩)).utf8ByteSize ≤ 8 * echoes.maxString + 256 :=
  (display_bounded (v := .object ⟨0, 0, 0⟩) slim_echoes trivial).1 (Nat.le_refl 80)
    (by decide +kernel)

/--
A number is written whole, however short the limit. Where errors are shown within errors, each of
them doubles the length.
-/
theorem display_past_bound :
    (empty 0 { stringLength := 1 }).Slim ∧
      8 * 1 + 256 < ((empty 0 { stringLength := 1 }).display
        (.number (Number.ofBinary false 1 (-1074)))).utf8ByteSize ∧
    echoes.Slim ∧
      8 * echoes.maxString + 256 < (echoes.display (.object ⟨0, 3, 0⟩)).utf8ByteSize :=
  ⟨slim_empty 0 _, by decide +kernel, slim_echoes, by decide +kernel⟩

end Heap

end ScriptHost

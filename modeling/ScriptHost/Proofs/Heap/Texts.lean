import Mathlib.Algebra.GroupWithZero.Nat
import Mathlib.Data.List.Forall2
import ScriptHost.Heap.Display

/-!
The text of a value with no limit on its length, and how much of it is displayed. The display is
cut off twice: once it is too long, which can be told from its length, and once too many values
have been looked at, which cannot.
-/

namespace ScriptHost

/-- A text is the whole one, or as much too long as that one is. -/
structure Tells (limit : Nat) (text whole : String) : Prop where
  eq : whole.utf8ByteSize ≤ limit → text = whole
  long : limit < whole.utf8ByteSize → limit < text.utf8ByteSize

namespace Tells

variable {limit : Nat} {text text' whole whole' : String}

theorem refl (limit : Nat) (text : String) : Tells limit text text :=
  ⟨fun _ => rfl, id⟩

theorem eq_or_long (h : Tells limit text whole) :
    text = whole ∨ limit < text.utf8ByteSize ∧ limit < whole.utf8ByteSize := by
  by_cases hfits : whole.utf8ByteSize ≤ limit
  · exact .inl (h.eq hfits)
  · have hlong := Nat.lt_of_not_le hfits
    exact .inr ⟨h.long hlong, hlong⟩

theorem of_eq_or_long
    (h : text = whole ∨ limit < text.utf8ByteSize ∧ limit < whole.utf8ByteSize) :
    Tells limit text whole := by
  rcases h with rfl | ⟨htext, hwhole⟩
  · exact refl limit text
  · exact ⟨fun hfits => absurd hfits (Nat.not_le_of_lt hwhole), fun _ => htext⟩

theorem trans (h : Tells limit text text') (h' : Tells limit text' whole) :
    Tells limit text whole := by
  constructor
  · intro hfits
    obtain rfl := h'.eq hfits
    exact h.eq hfits
  · intro hlong
    exact h.long (h'.long hlong)

theorem append (h : Tells limit text whole) (h' : Tells limit text' whole') :
    Tells limit (text ++ text') (whole ++ whole') := by
  rcases h.eq_or_long with rfl | ⟨htext, hwhole⟩
  · rcases h'.eq_or_long with rfl | ⟨htext', hwhole'⟩
    · exact refl limit _
    · refine of_eq_or_long (.inr ?_)
      simp only [String.utf8ByteSize_append]
      omega
  · refine of_eq_or_long (.inr ?_)
    simp only [String.utf8ByteSize_append]
    omega

theorem intercalate {separator : String} {texts wholes : List String}
    (h : List.Forall₂ (Tells limit) texts wholes) :
    Tells limit (separator.intercalate texts) (separator.intercalate wholes) := by
  induction h with
  | nil => exact refl limit _
  | @cons text whole texts wholes hfirst hrest ih =>
    cases hrest with
    | nil => simpa using hfirst
    | cons hnext hmore =>
      simp only [String.intercalate_cons_cons]
      exact (hfirst.append (refl limit separator)).append ih

end Tells

namespace Heap

/-! ## The whole text -/

/-- Null and undefined are not written among the elements of an array. -/
def partText (text : Value → String) (v : Value) : String :=
  if v.isNullish then "" else text v

def titled (name message : String) : String :=
  if message.isEmpty then name else name ++ ": " ++ message

def errorText (text : Value → String) (kind : ErrorKind) (o : HeapObject) : String :=
  titled ((o.get? "name").elim kind.name text) ((o.get? "message").elim "" text)

def objectText (text : Value → String) (o : HeapObject) : String :=
  match o.kind with
  | .ordinary => "[object Object]"
  | .array items => ",".intercalate (items.toList.map (partText text))
  | .function code _ => functionText code.name
  | .native _ => nativeText
  | .error kind => errorText text kind o

/-- The text of a value within which objects nest at most as deeply as given. -/
def textWithin (h : Heap) : Nat → Value → String
  | 0, .object _ => ""
  | room + 1, .object id => objectText (textWithin h room) (h.object id)
  | _, primitive => primitive.primitiveText?.getD ""

/-- The text of a value, however long it is. -/
def wholeText (h : Heap) (v : Value) : String :=
  h.textWithin (nestingLimit + 1) v

/-! ## Values looked at -/

def partLooks (looks : Value → Nat) (v : Value) : Nat :=
  if v.isNullish then 0 else looks v

def objectLooks (looks : Value → Nat) (o : HeapObject) : Nat :=
  match o.kind with
  | .array items => (items.toList.map (partLooks looks)).sum
  | .error _ => (o.get? "name").elim 0 looks + (o.get? "message").elim 0 looks
  | _ => 0

def looksWithin (h : Heap) : Nat → Value → Nat
  | room + 1, .object id => 1 + objectLooks (looksWithin h room) (h.object id)
  | _, _ => 1

/-- How many values have to be looked at for the text of one. -/
def looks (h : Heap) (v : Value) : Nat :=
  h.looksWithin (nestingLimit + 1) v

/-! ## The text of the first values -/

abbrev Sketch := Value → Nat → Canvas

def sketchPart (sketch : Sketch) (v : Value) (visits : Nat) : Canvas :=
  if v.isNullish then ⟨"", visits⟩ else sketch v visits

def sketchItems (sketch : Sketch) (first : Bool) : List Value → Nat → Canvas
  | [], visits => ⟨"", visits⟩
  | item :: rest, visits =>
      let part := sketchPart sketch item visits
      let more := sketchItems sketch false rest part.visits
      ⟨(if first then "" else ",") ++ part.text ++ more.text, more.visits⟩

def sketchError (sketch : Sketch) (kind : ErrorKind) (o : HeapObject) (visits : Nat) : Canvas :=
  let name : Canvas := (o.get? "name").elim ⟨kind.name, visits⟩ fun v => sketch v visits
  let message : Canvas := (o.get? "message").elim ⟨"", name.visits⟩ fun v => sketch v name.visits
  ⟨titled name.text message.text, message.visits⟩

def sketchObject (sketch : Sketch) (o : HeapObject) (visits : Nat) : Canvas :=
  match o.kind with
  | .ordinary => ⟨"[object Object]", visits⟩
  | .array items => sketchItems sketch true items.toList visits
  | .function code _ => ⟨functionText code.name, visits⟩
  | .native _ => ⟨nativeText, visits⟩
  | .error kind => sketchError sketch kind o visits

/-- Once so many values have been looked at, nothing is written for the others. -/
def sketchWithin (h : Heap) : Nat → Sketch
  | _, _, 0 => ⟨"", 0⟩
  | 0, .object _, visits + 1 => ⟨"", visits⟩
  | room + 1, .object id, visits + 1 => sketchObject (sketchWithin h room) (h.object id) visits
  | _, primitive, visits + 1 => ⟨primitive.primitiveText?.getD "", visits⟩

/-- What the text would be if only as many values are looked at as a string may have bytes. -/
def shownText (h : Heap) (v : Value) : String :=
  (h.sketchWithin (nestingLimit + 1) v h.maxString).text

/-! ## Painting and sketching -/

/-- A canvas is the one described, or as much too long as that one is. -/
def Depicts (limit : Nat) (c described : Canvas) : Prop :=
  c = described ∨ limit < c.text.utf8ByteSize ∧ limit < described.text.utf8ByteSize

/-- The canvas with what is sketched added to it. -/
def Canvas.add (c : Canvas) (sketch : Nat → Canvas) : Canvas :=
  ⟨c.text ++ (sketch c.visits).text, (sketch c.visits).visits⟩

/-- What is painted is what is sketched. -/
def Draws (limit : Nat) (paint : Canvas → Canvas) (sketch : Nat → Canvas) : Prop :=
  ∀ c, Depicts limit (paint c) (c.add sketch)

variable {limit : Nat} {c described : Canvas}

theorem Canvas.long_add (h : limit < c.text.utf8ByteSize) (sketch : Nat → Canvas) :
    limit < (c.add sketch).text.utf8ByteSize := by
  simp only [Canvas.add, String.utf8ByteSize_append]
  omega

theorem Canvas.isFull_iff : c.isFull limit = true ↔ limit < c.text.utf8ByteSize := by
  simp only [Canvas.isFull, decide_eq_true_eq]

theorem Canvas.add_none (c : Canvas) : c.add (fun visits => ⟨"", visits⟩) = c := by
  simp only [Canvas.add, String.append_empty]

theorem Draws.write (text : String) :
    Draws limit (fun c => c.write text) fun visits => ⟨text, visits⟩ :=
  fun _ => .inl rfl

theorem Depicts.stop (h : limit < c.text.utf8ByteSize) (sketch : Nat → Canvas) :
    Depicts limit c (c.add sketch) :=
  .inr ⟨h, Canvas.long_add h sketch⟩

/-- What is too long already stays too long. -/
theorem Draws.depicts {paint : Canvas → Canvas} {sketch : Nat → Canvas}
    (h : Draws limit paint sketch) (hc : Depicts limit c described) :
    Depicts limit (paint c) (described.add sketch) := by
  rcases hc with rfl | ⟨hlong, hdescribed⟩
  · exact h c
  · refine .inr ⟨?_, Canvas.long_add hdescribed sketch⟩
    rcases h c with heq | ⟨hpainted, -⟩
    · rw [heq]
      exact Canvas.long_add hlong sketch
    · exact hpainted

section Objects

variable {paint : Painter} {sketch : Sketch}

theorem draws_item (h : ∀ v, Draws limit (paint v) (sketch v)) (item : Value) :
    Draws limit (fun c => if item.isNullish then c else paint item c)
      (sketchPart sketch item) := by
  intro c
  unfold sketchPart
  cases item.isNullish with
  | true => exact .inl c.add_none.symm
  | false => exact h item c

theorem draws_items (h : ∀ v, Draws limit (paint v) (sketch v)) (items : List Value)
    (first : Bool) :
    Draws limit (paintItems limit paint first items) (sketchItems sketch first items) := by
  induction items generalizing first with
  | nil => exact fun c => .inl c.add_none.symm
  | cons item rest ih =>
    intro c
    rw [paintItems]
    split
    · next hfull => exact Depicts.stop (Canvas.isFull_iff.1 hfull) _
    · have hmark : (if first then c else c.write ",") =
          c.add fun visits => ⟨if first then "" else ",", visits⟩ := by
        cases first with
        | true => exact c.add_none.symm
        | false => rfl
      have hall : c.add (sketchItems sketch first (item :: rest)) =
          ((c.add fun visits => ⟨if first then "" else ",", visits⟩).add
            (sketchPart sketch item)).add (sketchItems sketch false rest) := by
        simp only [Canvas.add, sketchItems, String.append_assoc]
      rw [hmark, hall]
      exact (ih false).depicts (draws_item h item _)

theorem draws_part (h : ∀ v, Draws limit (paint v) (sketch v)) (part : Option Value)
    (visits : Nat) :
    Depicts limit (paintPart paint part visits)
      (part.elim ⟨"", visits⟩ fun v => sketch v visits) := by
  cases part with
  | none => exact .inl rfl
  | some v =>
    have hpart := h v ⟨"", visits⟩
    simp only [Canvas.add, String.empty_append] at hpart
    exact hpart

theorem draws_name (h : ∀ v, Draws limit (paint v) (sketch v)) (kind : ErrorKind)
    (part : Option Value) (visits : Nat) :
    Depicts limit (if part.isSome then paintPart paint part visits else ⟨kind.name, visits⟩)
      (part.elim ⟨kind.name, visits⟩ fun v => sketch v visits) := by
  cases part with
  | none => exact .inl rfl
  | some v => exact draws_part h (some v) visits

theorem paintError_titled (paint : Painter) (kind : ErrorKind) (o : HeapObject) (c : Canvas) :
    let name := if (o.get? "name").isSome then paintPart paint (o.get? "name") c.visits
      else ⟨kind.name, c.visits⟩
    let message := paintPart paint (o.get? "message") name.visits
    paintError paint kind o c = ⟨c.text ++ titled name.text message.text, message.visits⟩ := by
  intro name message
  have hpainted : paintError paint kind o c =
      if message.text.isEmpty then ⟨c.text ++ name.text, message.visits⟩
      else ⟨c.text ++ name.text ++ ": " ++ message.text, message.visits⟩ := rfl
  rw [hpainted]
  unfold titled
  split
  · rfl
  · simp only [String.append_assoc]

theorem titled_long {name message : String}
    (h : limit < name.utf8ByteSize ∨ limit < message.utf8ByteSize) :
    limit < (titled name message).utf8ByteSize := by
  unfold titled
  split
  · next hempty =>
    simp only [String.isEmpty_iff] at hempty
    subst hempty
    rcases h with hname | hmessage
    · exact hname
    · exact absurd hmessage (Nat.not_lt_zero limit)
  · simp only [String.utf8ByteSize_append]
    omega

/-- The parts of an error are painted apart, the second one with what is left by the first. -/
theorem Depicts.titled {name : Canvas} {painted sketched : Nat → Canvas}
    (hname : Depicts limit name described)
    (hmessage : ∀ visits, Depicts limit (painted visits) (sketched visits)) (before : String) :
    let message := painted name.visits
    let message' := sketched described.visits
    Depicts limit ⟨before ++ titled name.text message.text, message.visits⟩
      ⟨before ++ titled described.text message'.text, message'.visits⟩ := by
  have hlong {text : String} (h : limit < text.utf8ByteSize) :
      limit < (before ++ text).utf8ByteSize := by
    simp only [String.utf8ByteSize_append]
    omega
  intro message message'
  rcases hname with rfl | ⟨hname, hdescribed⟩
  · rcases hmessage name.visits with heq | ⟨hmessage, hsketched⟩
    · exact .inl (by rw [show message = message' from heq])
    · exact .inr ⟨hlong (titled_long (.inr hmessage)), hlong (titled_long (.inr hsketched))⟩
  · exact .inr ⟨hlong (titled_long (.inl hname)), hlong (titled_long (.inl hdescribed))⟩

theorem draws_error (h : ∀ v, Draws limit (paint v) (sketch v)) (kind : ErrorKind)
    (o : HeapObject) : Draws limit (paintError paint kind o) (sketchError sketch kind o) := by
  intro c
  rw [paintError_titled]
  exact (draws_name h kind (o.get? "name") c.visits).titled
    (draws_part h (o.get? "message")) c.text

theorem draws_object (h : ∀ v, Draws limit (paint v) (sketch v)) (o : HeapObject) :
    Draws limit (paintObject limit paint o) (sketchObject sketch o) := by
  unfold paintObject sketchObject
  cases o.kind with
  | ordinary => exact .write _
  | array items => exact draws_items h items.toList true
  | function => exact .write _
  | native => exact .write _
  | error kind => exact draws_error h kind o

end Objects

section Values

variable {h : Heap} {room : Nat}

@[simp]
theorem sketchWithin_zero (h : Heap) (room : Nat) (v : Value) :
    h.sketchWithin room v 0 = ⟨"", 0⟩ := by
  cases room <;> rfl

theorem paint_look {v : Value} {text : String} {visits : Nat}
    (hfits : text.utf8ByteSize ≤ h.maxString) :
    h.paint room v ⟨text, visits + 1⟩ =
      match v, room with
      | .object _, 0 => ⟨text, visits⟩
      | .object id, room + 1 =>
          paintObject h.maxString (h.paint room) (h.object id) ⟨text, visits⟩
      | primitive, _ => ⟨text ++ primitive.primitiveText?.getD "", visits⟩ := by
  have hlook : ¬ (Canvas.isFull ⟨text, visits + 1⟩ h.maxString ||
      decide ((⟨text, visits + 1⟩ : Canvas).visits = 0)) = true := by
    simp only [Canvas.isFull, Bool.or_eq_true, decide_eq_true_eq]
    omega
  rw [paint.eq_def, if_neg hlook]
  cases v with
  | object id => cases room <;> rfl
  | _ => rfl

/-- Nothing is painted once the text is too long or no value may be looked at any more. -/
theorem draws_of_look {v : Value}
    (hlook : ∀ text visits, text.utf8ByteSize ≤ h.maxString →
      Depicts h.maxString (h.paint room v ⟨text, visits + 1⟩)
        (Canvas.add ⟨text, visits + 1⟩ (h.sketchWithin room v))) :
    Draws h.maxString (h.paint room v) (h.sketchWithin room v) := by
  rintro ⟨text, visits⟩
  by_cases hfits : text.utf8ByteSize ≤ h.maxString
  · cases visits with
    | zero =>
      have hspent : h.paint room v ⟨text, 0⟩ = ⟨text, 0⟩ := by
        rw [paint.eq_def, if_pos (by simp only [decide_true, Bool.or_true])]
      rw [hspent]
      exact .inl (by simp only [Canvas.add, sketchWithin_zero, String.append_empty])
    | succ visits => exact hlook text visits hfits
  · have hlong := Nat.lt_of_not_le hfits
    have hfull : h.paint room v ⟨text, visits⟩ = ⟨text, visits⟩ := by
      rw [paint.eq_def, if_pos (by rw [Canvas.isFull_iff.2 hlong, Bool.true_or])]
    rw [hfull]
    exact Depicts.stop hlong _

/-- The counter of values looked at runs in step, until the text is too long. -/
theorem draws_paint (h : Heap) (room : Nat) (v : Value) :
    Draws h.maxString (h.paint room v) (h.sketchWithin room v) := by
  induction room generalizing v with
  | zero =>
    refine draws_of_look fun text visits hfits => ?_
    rw [paint_look hfits]
    cases v with
    | object id => exact .inl (Canvas.add_none ⟨text, visits⟩).symm
    | _ => exact .inl rfl
  | succ room ih =>
    refine draws_of_look fun text visits hfits => ?_
    rw [paint_look hfits]
    cases v with
    | object id => exact draws_object ih (h.object id) ⟨text, visits⟩
    | _ => exact .inl rfl

theorem display_shown (h : Heap) (v : Value) :
    Tells h.maxString (h.display v) (h.shownText v) := by
  refine .of_eq_or_long ?_
  have hdrawn := h.draws_paint (nestingLimit + 1) v ⟨"", h.maxString⟩
  simp only [Canvas.add, String.empty_append] at hdrawn
  rcases hdrawn with heq | hlong
  · exact .inl (congrArg Canvas.text heq)
  · exact .inr hlong

end Values

/-! ## Enough looks -/

section Enough

variable {sketch : Sketch} {text : Value → String} {looks : Value → Nat}

/-- What is sketched with looks to spare is the text, and those are left. -/
def Suffices (sketch : Sketch) (text : Value → String) (looks : Value → Nat) : Prop :=
  ∀ v spare, sketch v (looks v + spare) = ⟨text v, spare⟩

theorem Suffices.part (h : Suffices sketch text looks) (item : Value) (spare : Nat) :
    sketchPart sketch item (partLooks looks item + spare) = ⟨partText text item, spare⟩ := by
  unfold sketchPart partLooks partText
  split
  · rw [Nat.zero_add]
  · exact h item spare

theorem Suffices.rest (h : Suffices sketch text looks) (items : List Value) (spare : Nat) :
    ∃ more, sketchItems sketch false items ((items.map (partLooks looks)).sum + spare) =
        ⟨more, spare⟩ ∧
      ∀ before, before ++ more = ",".intercalate (before :: items.map (partText text)) := by
  induction items with
  | nil =>
    refine ⟨"", by simp only [sketchItems, List.map_nil, List.sum_nil, Nat.zero_add], ?_⟩
    intro before
    simp only [List.map_nil, String.intercalate_singleton, String.append_empty]
  | cons item rest ih =>
    obtain ⟨more, hmore, hjoined⟩ := ih
    refine ⟨"," ++ partText text item ++ more, ?_, ?_⟩
    · simp only [sketchItems, List.map_cons, List.sum_cons, Nat.add_assoc, h.part, hmore]
      rfl
    · intro before
      simp only [List.map_cons, String.intercalate_cons_cons, ← hjoined, String.append_assoc]

theorem Suffices.items (h : Suffices sketch text looks) (items : List Value) (spare : Nat) :
    sketchItems sketch true items ((items.map (partLooks looks)).sum + spare) =
      ⟨",".intercalate (items.map (partText text)), spare⟩ := by
  cases items with
  | nil =>
    simp only [sketchItems, List.map_nil, List.sum_nil, Nat.zero_add, String.intercalate_nil]
  | cons item rest =>
    obtain ⟨more, hmore, hjoined⟩ := h.rest rest spare
    simp only [sketchItems, List.map_cons, List.sum_cons, Nat.add_assoc, h.part, hmore,
      ← hjoined]
    simp only [if_true, String.empty_append]

theorem Suffices.error (h : Suffices sketch text looks) (kind : ErrorKind) (o : HeapObject)
    (spare : Nat) :
    sketchError sketch kind o
        ((o.get? "name").elim 0 looks + (o.get? "message").elim 0 looks + spare) =
      ⟨errorText text kind o, spare⟩ := by
  have hpart (part : Option Value) (default : String) (spare : Nat) :
      (part.elim ⟨default, part.elim 0 looks + spare⟩ fun v =>
        sketch v (part.elim 0 looks + spare)) = (⟨part.elim default text, spare⟩ : Canvas) := by
    cases part with
    | none => simp only [Option.elim_none, Nat.zero_add]
    | some v => exact h v spare
  simp only [sketchError, Nat.add_assoc, hpart]
  rfl

theorem Suffices.object (h : Suffices sketch text looks) (o : HeapObject) (spare : Nat) :
    sketchObject sketch o (objectLooks looks o + spare) = ⟨objectText text o, spare⟩ := by
  unfold sketchObject objectLooks objectText
  cases o.kind with
  | array items => exact h.items items.toList spare
  | error kind => exact h.error kind o spare
  | ordinary | function | native => simp only [Nat.zero_add]

theorem suffices_sketchWithin (h : Heap) (room : Nat) :
    Suffices (h.sketchWithin room) (h.textWithin room) (h.looksWithin room) := by
  induction room with
  | zero =>
    intro v spare
    cases v <;> simp only [looksWithin, Nat.add_comm 1] <;> rfl
  | succ room ih =>
    intro v spare
    cases v with
    | object id =>
      simp only [looksWithin, Nat.add_comm 1, Nat.add_right_comm _ 1]
      exact ih.object (h.object id) spare
    | _ =>
      simp only [looksWithin, Nat.add_comm 1]
      rfl

theorem shownText_eq {h : Heap} {v : Value} (hlooks : h.looks v ≤ h.maxString) :
    h.shownText v = h.wholeText v := by
  have henough := h.suffices_sketchWithin (nestingLimit + 1) v (h.maxString - h.looks v)
  have hsplit : h.looks v + (h.maxString - h.looks v) = h.maxString := Nat.add_sub_cancel' hlooks
  unfold shownText wholeText
  rw [← hsplit]
  exact congrArg Canvas.text henough

end Enough

/-! ## Too few looks -/

section Few

variable {sketch : Sketch} {text : Value → String}

/-- What is sketched is no longer than the text. -/
def Abridges (sketch : Sketch) (text : Value → String) : Prop :=
  ∀ v visits, (sketch v visits).text.utf8ByteSize ≤ (text v).utf8ByteSize

theorem Abridges.part (h : Abridges sketch text) (item : Value) (visits : Nat) :
    (sketchPart sketch item visits).text.utf8ByteSize ≤ (partText text item).utf8ByteSize := by
  unfold sketchPart partText
  split
  · exact Nat.le_refl _
  · exact h item visits

theorem Abridges.rest (h : Abridges sketch text) (items : List Value) (before : String)
    (visits : Nat) :
    before.utf8ByteSize + (sketchItems sketch false items visits).text.utf8ByteSize ≤
      (",".intercalate (before :: items.map (partText text))).utf8ByteSize := by
  induction items generalizing before visits with
  | nil => exact Nat.le_refl _
  | cons item rest ih =>
    have hpart := h.part item visits
    have hrest := ih (partText text item) (sketchPart sketch item visits).visits
    simp only [sketchItems, List.map_cons, String.intercalate_cons_cons,
      String.utf8ByteSize_append, Bool.false_eq_true, if_false] at hrest ⊢
    omega

theorem Abridges.items (h : Abridges sketch text) (items : List Value) (visits : Nat) :
    (sketchItems sketch true items visits).text.utf8ByteSize ≤
      (",".intercalate (items.map (partText text))).utf8ByteSize := by
  cases items with
  | nil => exact Nat.le_refl _
  | cons item rest =>
    have hpart := h.part item visits
    have hrest := h.rest rest (partText text item) (sketchPart sketch item visits).visits
    simp only [sketchItems, List.map_cons, String.utf8ByteSize_append, if_true] at hrest ⊢
    have hnone : "".utf8ByteSize = 0 := rfl
    omega

theorem titled_le {name name' message message' : String}
    (hname : name.utf8ByteSize ≤ name'.utf8ByteSize)
    (hmessage : message.utf8ByteSize ≤ message'.utf8ByteSize) :
    (titled name message).utf8ByteSize ≤ (titled name' message').utf8ByteSize := by
  have hempty (s : String) : s.isEmpty = true ↔ s.utf8ByteSize = 0 := by
    simp only [String.isEmpty_iff, String.utf8ByteSize_eq_zero_iff]
  unfold titled
  split
  · split
    · exact hname
    · simp only [String.utf8ByteSize_append]
      omega
  · next hwritten =>
    have hwritten' : ¬ message'.isEmpty = true := by
      rw [hempty] at hwritten ⊢
      omega
    rw [if_neg hwritten']
    simp only [String.utf8ByteSize_append]
    omega

theorem Abridges.error (h : Abridges sketch text) (kind : ErrorKind) (o : HeapObject)
    (visits : Nat) :
    (sketchError sketch kind o visits).text.utf8ByteSize ≤
      (errorText text kind o).utf8ByteSize := by
  have hpart (part : Option Value) (default : String) (visits : Nat) :
      (part.elim ⟨default, visits⟩ fun v => sketch v visits : Canvas).text.utf8ByteSize ≤
        (part.elim default text).utf8ByteSize := by
    cases part with
    | none => exact Nat.le_refl _
    | some v => exact h v visits
  exact titled_le (hpart _ _ _) (hpart _ _ _)

theorem Abridges.object (h : Abridges sketch text) (o : HeapObject) (visits : Nat) :
    (sketchObject sketch o visits).text.utf8ByteSize ≤ (objectText text o).utf8ByteSize := by
  unfold sketchObject objectText
  cases o.kind with
  | array items => exact h.items items.toList visits
  | error kind => exact h.error kind o visits
  | ordinary | function | native => exact Nat.le_refl _

theorem abridges_sketchWithin (h : Heap) (room : Nat) :
    Abridges (h.sketchWithin room) (h.textWithin room) := by
  induction room with
  | zero =>
    intro v visits
    cases visits with
    | zero => exact Nat.zero_le _
    | succ visits => cases v <;> exact Nat.le_refl _
  | succ room ih =>
    intro v visits
    cases visits with
    | zero => exact Nat.zero_le _
    | succ visits =>
      cases v with
      | object id => exact ih.object (h.object id) visits
      | _ => exact Nat.le_refl _

theorem shownText_le (h : Heap) (v : Value) :
    (h.shownText v).utf8ByteSize ≤ (h.wholeText v).utf8ByteSize :=
  h.abridges_sketchWithin (nestingLimit + 1) v h.maxString

end Few

/-! ## Faithful texts -/

/-- The text of the first values is the whole text, or too long already. -/
def Shows (h : Heap) (v : Value) : Prop :=
  h.shownText v = h.wholeText v ∨ h.maxString < (h.shownText v).utf8ByteSize

theorem Shows.of_looks {h : Heap} {v : Value} (hlooks : h.looks v ≤ h.maxString) : h.Shows v :=
  .inl (shownText_eq hlooks)

theorem tells_display_iff (h : Heap) (v : Value) :
    Tells h.maxString (h.display v) (h.wholeText v) ↔ h.Shows v := by
  have hshown := h.display_shown v
  have hle := h.shownText_le v
  constructor
  · intro htells
    by_cases hlong : h.maxString < (h.shownText v).utf8ByteSize
    · exact .inr hlong
    · have hdisplay := hshown.eq (Nat.le_of_not_lt hlong)
      rcases htells.eq_or_long with heq | ⟨hlong', -⟩
      · exact .inl (hdisplay.symm.trans heq)
      · exact absurd (hdisplay ▸ hlong') hlong
  · rintro (heq | hlong)
    · exact heq ▸ hshown
    · exact .of_eq_or_long (.inr ⟨hshown.long hlong, Nat.lt_of_lt_of_le hlong hle⟩)

end Heap

end ScriptHost

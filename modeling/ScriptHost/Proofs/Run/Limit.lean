import ScriptHost.Proofs.Json.Lengths
import ScriptHost.Proofs.Run.Complaining
import ScriptHost.Proofs.Run.Strings
import ScriptHost.Session

/-!
The limit on strings: what keeps to it, and what comes of a string that would not.
-/

namespace ScriptHost

/-! ## Texts -/

namespace Heap

def elementText (h : Heap) (v : Value) : String :=
  if v.isNullish then "" else h.display v

def separator (h : Heap) : List Value → String
  | [] => ","
  | .undefined :: _ => ","
  | v :: _ => h.display v

/-- A join stops early only where it is too long already. -/
theorem joinItems_whole (h : Heap) (separator : String) (items : List Value)
    (before text : String) :
    let cut := h.joinItems separator false items (before ++ text)
    let whole := before ++ separator.intercalate (text :: items.map h.elementText)
    cut = whole ∨ h.maxString < cut.utf8ByteSize ∧ h.maxString < whole.utf8ByteSize := by
  induction items generalizing before text with
  | nil => exact .inl (congrArg (before ++ ·) String.intercalate_singleton.symm)
  | cons item rest ih =>
      intro cut whole
      -- what is before the elements grows by one of them in each step
      have hwhole : whole = (before ++ text ++ separator) ++
          separator.intercalate (h.elementText item :: rest.map h.elementText) := by
        simp only [whole, List.map_cons, String.intercalate_cons_cons, String.append_assoc]
      by_cases hfull : h.maxString < (before ++ text).utf8ByteSize
      -- the elements left out would only have made the text longer
      · have hcut : cut = before ++ text := if_pos hfull
        refine .inr ⟨hcut ▸ hfull, Nat.lt_of_lt_of_le hfull ?_⟩
        rw [hwhole]
        simp only [String.utf8ByteSize_append]
        omega
      · have hcut : cut = h.joinItems separator false rest
            (before ++ text ++ separator ++ h.elementText item) := by
          unfold cut elementText
          rw [joinItems, if_neg hfull, if_neg Bool.false_ne_true]
          split
          · rw [String.append_empty]
          · rfl
        rw [hcut, hwhole]
        exact ih _ _

theorem join_whole (h : Heap) (id : ObjectId) (separator : String) {items : Array Value}
    (hitems : (h.object id).items? = some items) :
    let whole := separator.intercalate (items.toList.map h.elementText)
    h.join id separator = whole ∨
      h.maxString < (h.join id separator).utf8ByteSize ∧ h.maxString < whole.utf8ByteSize := by
  have hjoin : h.join id separator = h.joinItems separator true items.toList "" := by
    rw [join, hitems]
  intro whole
  rw [hjoin]
  unfold whole
  cases items.toList with
  | nil => exact .inl String.intercalate_nil.symm
  | cons first rest =>
      have hfirst : h.joinItems separator true (first :: rest) "" =
          h.joinItems separator false rest ("" ++ h.elementText first) := by
        have hempty : ¬ h.maxString < "".utf8ByteSize := Nat.not_lt_zero _
        unfold elementText
        rw [joinItems, if_neg hempty, if_pos rfl]
        split <;> rfl
      have hrest := h.joinItems_whole separator rest "" (h.elementText first)
      rw [String.empty_append (s := separator.intercalate _)] at hrest
      rw [hfirst]
      exact hrest

end Heap

theorem Machine.Modest.note {n : Nat} {m : Machine} (hm : m.Modest n) {json : Json}
    (hjson : json.Fits n) : (m.note json).Modest n :=
  List.forall_mem_cons.2 ⟨hjson, hm⟩

namespace Run

variable {n : Nat} {m : Machine} {s : Setting}

/-- The operations that check the length of a text, and the text that each builds. -/
inductive Builds (h : Heap) : Run Value → String → Prop
  | concatenation {left right : Value} :
      (h.toPrimitive left).isText ∨ (h.toPrimitive right).isText →
      Builds h (binary .add left right)
        (h.display (h.toPrimitive left) ++ h.display (h.toPrimitive right))
  | join {id : ObjectId} {items : Array Value} {args : List Value} :
      (h.object id).items? = some items →
      Builds h (callArrayMethod id .join args)
        ((h.separator args).intercalate (items.toList.map h.elementText))
  | stringify {args : List Value} {json : Json} :
      ¬ (args.head?.getD .undefined = .undefined ∨ h.isCallable (args.head?.getD .undefined)) →
      h.toJson (args.head?.getD .undefined) = .ok json →
      Builds h (callNative .jsonStringify args) json.write

/-- A text becomes a string unless it is too long; then a `RangeError` is thrown in its place. -/
inductive Makes (text : String) (m : Machine) : EStateM.Result Abrupt Machine Value → Prop
  | made : text.utf8ByteSize ≤ m.heap.maxString → Makes text m (.ok (.string text) m)
  | refused {r : EStateM.Result Abrupt Machine Value} :
      m.heap.maxString < text.utf8ByteSize → Complains .stringLength m r → Makes text m r

theorem string_makes (hs : m.heap.Sound) (text : String) : Makes text m (string text s m) := by
  have hchecked : string text s m =
      (if m.heap.maxString < text.utf8ByteSize then complain .stringLength
        else Pure.pure (.string text) : Run Value) s m := rfl
  rw [hchecked]
  split
  · next hlong => exact .refused hlong (complain_complains hs .stringLength s)
  · next hlong => exact .made (Nat.le_of_not_lt hlong)

/-- Where the text is cut off, the whole of it is too long as well. -/
theorem Makes.whole {cut whole : String} {r : EStateM.Result Abrupt Machine Value}
    (hcut : cut = whole ∨ m.heap.maxString < cut.utf8ByteSize ∧
      m.heap.maxString < whole.utf8ByteSize) (hmakes : Makes cut m r) : Makes whole m r := by
  rcases hcut with heq | ⟨hlong, hwhole⟩
  · exact heq ▸ hmakes
  · cases hmakes with
    | made hfits => exact absurd hfits (Nat.not_le_of_lt hlong)
    | refused _ hcomplains => exact .refused hwhole hcomplains

theorem callArrayMethod_join (id : ObjectId) (args : List Value) (s : Setting) (m : Machine) :
    callArrayMethod id .join args s m = string (m.heap.join id (m.heap.separator args)) s m := by
  unfold callArrayMethod
  dsimp only
  rw [bind_ok (rfl : heap s m = .ok m.heap m)]
  cases args with
  | nil => rfl
  | cons first rest => cases first <;> rfl

theorem Builds.makes {x : Run Value} {text : String} (hx : Builds m.heap x text)
    (hs : m.heap.Sound) : Makes text m (x s m) := by
  cases hx with
  | @concatenation left right htext =>
      have hjoined : binary .add left right s m = string
          (m.heap.display (m.heap.toPrimitive left) ++ m.heap.display (m.heap.toPrimitive right))
          s m := by
        have hadd : binary .add left right s m =
            (if (m.heap.toPrimitive left).isText || (m.heap.toPrimitive right).isText then _
              else _ : Run Value) s m := rfl
        rw [hadd, if_pos (Bool.or_eq_true_iff.2 htext), ← String.utf8ByteSize_append]
        rfl
      rw [hjoined]
      exact string_makes hs _
  | join hitems =>
      rw [callArrayMethod_join]
      exact (string_makes hs _).whole (m.heap.join_whole _ _ hitems)
  | @stringify args json hfirst hjson =>
      have hwritten : callNative .jsonStringify args s m = string json.write s m := by
        have hnative : callNative .jsonStringify args s m =
            (if args.head?.getD .undefined = .undefined ||
                m.heap.isCallable (args.head?.getD .undefined) then _ else _ : Run Value) s m := rfl
        have hnone : ¬ (args.head?.getD .undefined = .undefined ||
            m.heap.isCallable (args.head?.getD .undefined)) := by
          simpa only [Bool.or_eq_true, decide_eq_true_eq] using hfirst
        rw [hnative, if_neg hnone, hjson]
      rw [hwritten]
      exact string_makes hs _

/-! ## Operations -/

/-- The operations of scripts on values; the arguments of a method may be stored. -/
inductive Operation (n : Nat) : Run Value → Prop
  | operator {op : Source.BinaryOp} {left right : Value} : Operation n (binary op left right)
  | property {base : Value} {key : String} : Operation n (getProperty base key)
  | method {id : ObjectId} {method : ArrayMethod} {args : List Value} :
      (∀ v ∈ args, v.Fits n) → Operation n (callArrayMethod id method args)
  | native {function : Native} {args : List Value} : Operation n (callNative function args)

theorem Operation.holds (hn : 64 ≤ n) {x : Run Value} (hx : Operation n x) :
    Holds n True x (Value.Fits n) := by
  cases hx with
  | operator => exact holds_binary hn _ _ _
  | property => exact holds_getProperty hn _ _
  | method hargs => exact holds_callArrayMethod hn _ _ fun _ => hargs
  | native => exact holds_callNative hn _ _

/-! ## Texts that nobody checks -/

theorem modest_onHeap {α : Type} (hm : m.Modest n) (x : Heap.Step α) :
    (left (onHeap x s m)).Modest n := by
  unfold onHeap
  cases x m.heap with
  | ok | error => exact hm

theorem fits_errorConstructor (hn : 64 ≤ n) (hm : m.Fits n) (hmodest : m.Modest n)
    (kind : ErrorKind) {args : List Value}
    (hfirst : (m.heap.display (args.head?.getD .undefined)).utf8ByteSize ≤ n) :
    Fits n (Value.Fits n) (callNative (.errorConstructor kind) args s m) := by
  refine (Operation.native.holds hn s m).2 trivial hm ?_
  refine modest_onHeap (s := s) (hmodest.note (.text ?_)) _
  split
  · exact Nat.zero_le n
  · exact hfirst

theorem fits_jsonParse (hn : 64 ≤ n) (hm : m.Fits n) (hmodest : m.Modest n) {args : List Value}
    (hfirst : (m.heap.display (args.head?.getD .undefined)).utf8ByteSize ≤ n) {json : Json}
    (hjson : Json.ofText (m.heap.display (args.head?.getD .undefined)) = .ok json) :
    Fits n (Value.Fits n) (callNative .jsonParse args s m) := by
  have hparsed : callNative .jsonParse args s m = onHeap (Heap.fromJson json) s (m.note json) := by
    simp only [callNative]
    rw [bind_ok (rfl : heap s m = .ok m.heap m), hjson]
    rfl
  refine (Operation.native.holds hn s m).2 trivial hm ?_
  rw [hparsed]
  exact modest_onHeap (hmodest.note (Json.fits_ofText hfirst hjson)) _

/-! ## Runs -/

theorem fits_perform (hn : 64 ≤ n) {task : Task} (hm : m.Fits n) (htask : task.Fits n)
    (hmodest : (task.perform m s).2.Modest n) :
    (task.perform m s).1.Fits n ∧ (task.perform m s).2.Fits n := by
  have hends := (holds_task hn task s m).2 htask hm
  rw [Task.perform_eq] at hmodest ⊢
  cases h : task.run s m with
  | ok v k =>
      rw [h] at hends hmodest
      obtain ⟨hk, hv⟩ := hends hmodest
      exact ⟨hv, hk⟩
  | error e k =>
      rw [h] at hends hmodest
      cases e with
      | thrown | returned | terminated | starved =>
          obtain ⟨hk, he⟩ := hends hmodest
          exact ⟨he, hk⟩
      | broke | continued =>
          obtain ⟨hk, -⟩ := hends hmodest
          exact ⟨trivial, hk⟩

/--
Strings keep to the limit, in whole runs and in each operation, if the texts and documents that
nobody checks do. A run may be cut off at any poll, so they do at all of its safe points. An
operation that checks a text throws where it is too long; the others make no string that is longer
than the text of what they are given.
-/
theorem strings_limited {n : Nat} (hn : 64 ≤ n) :
    (∀ (task : Task) (s : Setting) (m : Machine), m.Fits n → task.Fits n →
      (task.perform m s).2.Modest n →
      (task.perform m s).1.Fits n ∧ (task.perform m s).2.Fits n) ∧
    (∀ (x : Run Value) (s : Setting) (m : Machine), m.Fits n → Operation n x →
      (left (x s m)).Modest n → Fits n (Value.Fits n) (x s m)) ∧
    (∀ (x : Run Value) (text : String) (s : Setting) (m : Machine), m.heap.Sound →
      Builds m.heap x text → Makes text m (x s m)) ∧
    ∀ (args : List Value) (s : Setting) (m : Machine), m.Fits n → m.Modest n →
      (m.heap.display (args.head?.getD .undefined)).utf8ByteSize ≤ n →
      (∀ kind, Fits n (Value.Fits n) (callNative (.errorConstructor kind) args s m)) ∧
      ∀ json, Json.ofText (m.heap.display (args.head?.getD .undefined)) = .ok json →
        Fits n (Value.Fits n) (callNative .jsonParse args s m) := by
  refine ⟨fun task s m hm htask => fits_perform hn hm htask, fun x s m hm hx => ?_,
    fun x text s m hs hx => hx.makes hs, fun args s m hm hmodest hfirst => ⟨fun kind => ?_, ?_⟩⟩
  · exact (hx.holds hn s m).2 trivial hm
  · exact fits_errorConstructor hn hm hmodest kind hfirst
  · exact fun json => fits_jsonParse hn hm hmodest hfirst

/-- The sum of two literals is still within the limit. -/
theorem strings_limited_doubled :
    let text := String.ofList (List.replicate 30 'x')
    let sum := Source.Expr.binary .add (.string text) (.string text)
    let task := Task.program [.mk 1 (.expression sum)]
    let s : Setting := ⟨fun _ _ => none, 8, 128, ⟨0, 0, 0⟩, 0⟩
    let m := Machine.start (.empty 0 { stringLength := 64 }) .empty none
      (.new "" [] true (.dedicated .new))
    64 ≤ 64 ∧ m.Fits 64 ∧ task.Fits 64 ∧ (task.perform m s).2.Modest 64 ∧
      (task.perform m s).1.Fits 64 ∧ (task.perform m s).2.Fits 64 := by
  intro text sum task s m
  have hplain : HeapObject.Fits 64 ⟨.ordinary, []⟩ :=
    HeapObject.fits_ordinary (List.forall_mem_nil _)
  have hm : m.Fits 64 := ⟨⟨Nat.le_refl 64, .empty hplain 0 _⟩, nofun, nofun, trivial⟩
  have htext : text.utf8ByteSize ≤ 64 := by decide +kernel
  have htask : task.Fits 64 :=
    List.forall_mem_singleton.2 (.mk (.expression (.binary (.string htext) (.string htext))))
  have hrecord : (task.perform m s).2.unchecked.isEmpty = true := by decide +kernel
  have hmodest : (task.perform m s).2.Modest 64 := by
    rw [Machine.Modest, List.isEmpty_iff.1 hrecord]
    exact List.forall_mem_nil _
  exact ⟨Nat.le_refl 64, hm, htask, hmodest,
    (strings_limited (Nat.le_refl 64)).1 task s m hm htask hmodest⟩

end Run

namespace Session

/-- Nobody checks the text of an array that becomes the message of an error. -/
theorem message_past_limit :
    let text := String.ofList (List.replicate 60 'x')
    let source := "new Error(['" ++ text ++ "', '" ++ text ++ "']).message"
    let turn : Turn := ⟨.new, fun _ _ => false, 100, .evaluate (.anonymous source) .propagate⟩
    let host := Host.new "worker" [] true (.dedicated .new)
    let s := (start 0 host { stringLength := 64, wallClockMs := 0 } true).after (fun _ _ => 0)
      [turn]
    s.given = [.string (text ++ "," ++ text)] ∧ (text ++ "," ++ text).utf8ByteSize = 121 := by
  decide +kernel

end Session

end ScriptHost

import ScriptHost.Proofs.Coupling.Law
import ScriptHost.Proofs.Number.Positions
import ScriptHost.Proofs.Run.Texts

/-!
Index expressions read the elements of arrays by their positions, without a text for the key. What
they read is what the property of that text has.
-/

namespace ScriptHost

variable {h : Heap} {base key element : Value} {limits : Limits} {m : Machine} {s : Setting}

theorem Limits.longestString_ne_zero (l : Limits) : l.longestString ≠ 0 := by
  unfold longestString
  split
  · decide
  · assumption

/-! ## Keys -/

namespace Number

theorem readPosition?_length : readPosition? "length" = none :=
  readPosition?_stray (c := 'l') (by decide) (by decide) (by decide)

end Number

namespace Heap

/-- The position that an array is asked for by a key, if the key is taken for one at once. -/
def keyPosition? : Value → Option Nat
  | .number x => Number.position? x
  | .string s => Number.readPosition? s
  | _ => none

theorem element?_eq (h : Heap) (id : ObjectId) (key : Value) :
    h.element? id key = (h.object id).items?.bind fun items =>
      (keyPosition? key).map fun index => items[index]?.getD .undefined := by
  unfold element?
  cases (h.object id).items? <;> rfl

theorem readPosition?_propertyKey (hlimit : h.maxString ≠ 0) {n : Nat}
    (hkey : keyPosition? key = some n) : Number.readPosition? (h.propertyKey key) = some n := by
  cases key with
  | number x => exact (Number.position?_iff.1 hkey).1
  | string text =>
      change Number.readPosition? (h.display (.string text)) = some n
      rw [display_string hlimit]
      exact hkey
  | _ => cases hkey

theorem property?_of_element? (hlimit : h.maxString ≠ 0) {id : ObjectId}
    (helement : h.element? id key = some element) :
    h.property? (.object id) (h.propertyKey key) = some element := by
  rw [element?_eq] at helement
  obtain ⟨items, hitems, hmap⟩ := Option.bind_eq_some_iff.1 helement
  obtain ⟨n, hn, hitem⟩ := Option.map_eq_some_iff.1 hmap
  have hread := readPosition?_propertyKey hlimit hn
  have hname : h.propertyKey key ≠ "length" := by
    intro hlength
    rw [hlength, Number.readPosition?_length] at hread
    cases hread
  simp [property?, propertyOf, hitems, hname, hread, hitem]

/-- A heap is given its limit on strings once for all. -/
theorem maxString_law (limit : Nat) : Heap.Law fun h => h.maxString = limit where
  allocate h o hh := by
    rcases charge_cases o.slots 0 h with hno | ⟨hok, -⟩
    · simpa [left, allocate, Bind.bind, EStateM.bind, hno] using hh
    · simp only [left, allocate, Bind.bind, EStateM.bind, hok]
      exact (alike_place _ o 0).maxString.trans hh
  allocateHost h o _ hh := (h.alike_place o o.slots).maxString.trans hh
  write h w id hh := by
    rcases w.step_result id h with hno | ⟨hok, -⟩
    · simpa [left, hno] using hh
    · have hupdate : (h.update id w.change).maxString = h.maxString := by
        unfold update
        split <;> rfl
      simpa [left, hok, Write.result, hupdate] using hh

end Heap

/-! ## Index expressions -/

namespace Run

/-- What an index expression does with its two values. -/
def readIndex (base key : Value) : Run Value := do
  let h ← heap
  match base.object?.bind fun id => h.element? id key with
  | some element => pure element
  | none => getProperty base (h.propertyKey key)

theorem readIndex_eq (hlimit : m.heap.maxString ≠ 0) (base key : Value) (s : Setting) :
    readIndex base key s m = getProperty base (m.heap.propertyKey key) s m := by
  unfold readIndex
  rw [bind_ok (rfl : heap s m = .ok m.heap m)]
  cases helement : base.object?.bind fun id => m.heap.element? id key with
  | none => rfl
  | some element =>
      obtain ⟨id, hid, helement⟩ := Option.bind_eq_some_iff.1 helement
      obtain rfl : base = .object id := by
        cases base <;> simp_all [Value.object?]
      have hproperty := Heap.property?_of_element? hlimit helement
      unfold getProperty
      rw [bind_ok (rfl : heap s m = .ok m.heap m), hproperty]

end Run

namespace Evaluator

open Source (Expr)

theorem evalIndex_eq (self : Evaluator) (object key : Expr) (frame : Frame) :
    self.evalIndex object key frame =
      self.eval object frame >>= fun base => self.eval key frame >>= Run.readIndex base :=
  rfl

theorem maxString_eval {m' : Machine} {depth : Nat} {e : Expr} {frame : Frame} {v : Value}
    (hok : (ofDepth depth).eval e frame s m = .ok v m') : m'.heap.maxString = m.heap.maxString := by
  have hkept := (Heap.maxString_law m.heap.maxString).machine.eval rfl s depth e frame
  rw [hok] at hkept
  exact hkept

/-- The function that a call finds under a key is what the index expression reads. -/
theorem evalIndex_evalKey (hlimit : m.heap.maxString ≠ 0) (depth : Nat) (object key : Expr)
    (frame : Frame) (s : Setting) :
    (ofDepth depth).evalIndex object key frame s m = (do
      let base ← (ofDepth depth).eval object frame
      let key ← (ofDepth depth).evalKey key frame
      Run.getProperty base key) s m := by
  rw [evalIndex_eq]
  cases hobject : (ofDepth depth).eval object frame s m with
  | error abrupt m₁ => rw [Run.bind_error hobject, Run.bind_error hobject]
  | ok base m₁ =>
      rw [Run.bind_ok hobject, Run.bind_ok hobject]
      unfold evalKey
      cases hkey : (ofDepth depth).eval key frame s m₁ with
      | error abrupt m₂ =>
          rw [Run.bind_error hkey, Run.bind_error (Run.bind_error hkey)]
      | ok value m₂ =>
          have hkept : m₂.heap.maxString = m.heap.maxString :=
            (maxString_eval hkey).trans (maxString_eval hobject)
          rw [Run.bind_ok hkey, Run.readIndex_eq (hkept ▸ hlimit), Run.bind_ok (Run.bind_ok hkey)]

end Evaluator

/--
Whatever the base and the key are, an index expression reads the property that the text of the key
names, as a call or a write does that looks it up by that text. A number is taken for a position
at once just where its text is one, up to the last 32-bit word.
-/
theorem index_reads_property (limits : Limits) (m : Machine) (s : Setting)
    (hlimit : m.heap.maxString = limits.longestString) :
    (∀ base key, Run.readIndex base key s m = Run.getProperty base (m.heap.propertyKey key) s m) ∧
    (∀ depth object key frame, (Evaluator.ofDepth depth).evalIndex object key frame s m = (do
      let base ← (Evaluator.ofDepth depth).eval object frame
      let key ← (Evaluator.ofDepth depth).evalKey key frame
      Run.getProperty base key) s m) ∧
    ∀ x n, Number.position? x = some n ↔
      Number.readPosition? (m.heap.propertyKey (.number x)) = some n ∧ n < UInt32.size - 1 := by
  have hsome : m.heap.maxString ≠ 0 := hlimit ▸ limits.longestString_ne_zero
  refine ⟨fun base key => Run.readIndex_eq hsome base key s, fun depth object key frame => ?_,
    fun x n => Number.position?_iff⟩
  exact Evaluator.evalIndex_evalKey hsome depth object key frame s

/-- Keys with a sign or a zero in front, and numbers that are none of the positions. -/
theorem index_reads_property_odd :
    let h := ((Heap.empty 0 {}).allocateHost ⟨.array #[.string "a", .string "b"], []⟩).2
    let m := Machine.start h .empty none (.new "worker" [] true (.dedicated .new))
    let s : Setting := ⟨fun _ _ => none, 100, 128, ⟨0, 0, 0⟩, 0⟩
    let keys : List Value := [.string "+01", .number (-0.0), .number 0.5, .number 4294967296.0]
    m.heap.maxString = ({} : Limits).longestString ∧
      keys.map m.heap.propertyKey = ["+01", "0", "0.5", "4294967296"] ∧
      keys.map (fun key => h.element? ⟨0, 0, 0⟩ key) =
        [some (.string "b"), some (.string "a"), none, none] ∧
      Run.readIndex (.object ⟨0, 0, 0⟩) (.string "+01") s m =
        Run.getProperty (.object ⟨0, 0, 0⟩) "+01" s m := by
  intro h m s keys
  have hkeys : keys.map m.heap.propertyKey = ["+01", "0", "0.5", "4294967296"] := by decide +kernel
  have hkey : m.heap.propertyKey (.string "+01") = "+01" := (List.cons.inj hkeys).1
  have hread := (index_reads_property {} m s rfl).1 (.object ⟨0, 0, 0⟩) (.string "+01")
  rw [hkey] at hread
  exact ⟨rfl, hkeys, by decide +kernel, hread⟩

end ScriptHost

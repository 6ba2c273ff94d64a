import ScriptHost.Proofs.Heap.Serialization
import ScriptHost.Proofs.Session.Upholding

/-!
The names of the properties of each object are distinct all through a session. So scripts are told
by JSON what they are told by reading.
-/

namespace ScriptHost

theorem Heap.distinct_lasting : Heap.Lasting Heap.Distinct :=
  fun _ hstep h hh => Heap.upholds_scripted hstep h hh

theorem Run.upholds_message {handler : String} {data : Option Json}
    (hdata : ∀ json ∈ data, ∃ payload, Json.ofBytes payload = .ok json) :
    Run.Upholds Heap.Distinct (Run.dispatch handler (Environment.messageEvent data)) :=
  .dispatch Heap.distinct_lasting handler (Heap.upholds_messageEvent hdata)

theorem Run.upholds_connect (handler : String) (port : Nat) :
    Run.Upholds Heap.Distinct (Run.dispatch handler (Environment.connectEvent port)) :=
  .dispatch Heap.distinct_lasting handler (Heap.upholds_connectEvent port)

namespace Session

theorem upholds_distinct : Environment.Upholds Heap.Distinct where
  build scopes host hh :=
    GlobalScope.build_all (fun _ => HeapObject.distinct_bare _) (fun _ ht => ht)
      (fun _ key value ho => ho.put key value) hh scopes host
  tidied scopes roots live hh := Heap.All.tidied hh scopes roots live
  error kind message hh := Heap.upholds_allocateError kind message _ hh
  hostError kind message hh := Heap.All.allocateHost hh (HeapObject.distinct_error kind message)
  program _ := .program Heap.distinct_lasting _
  message hdata := Run.upholds_message hdata
  connect port := Run.upholds_connect "onconnect" port

theorem distinct_after (arena : Nat) (host : Host) (limits : Limits) (reporting : Bool)
    (clocks : Nat → Nat → Nat) (turns : List Turn) :
    ((start arena host limits reporting).after clocks turns).worker.environment.heap.Distinct :=
  upholds_distinct.after (s := start arena host limits reporting)
    (Heap.All.empty (HeapObject.distinct_bare .ordinary) arena limits) clocks turns

/--
No object has two properties of one name, after a session as after each part of a run. So where an
object that is no array is accepted as JSON, an entry is there for each name by which something
other than undefined is read, and it is what is read, as JSON.
-/
theorem serialization_agrees :
    (∀ arena host limits reporting clocks turns,
      ((start arena host limits reporting).after clocks turns).worker.environment.heap.Distinct) ∧
    ∀ (s : Setting) (m : Machine), m.heap.Distinct →
      (∀ depth e frame, (Run.left ((Evaluator.ofDepth depth).eval e frame s m)).heap.Distinct) ∧
      (∀ depth stmt frame,
        (Run.left ((Evaluator.ofDepth depth).exec stmt frame s m)).heap.Distinct) ∧
      (∀ depth function this args name,
        (Run.left ((Evaluator.ofDepth depth).call function this args name s m)).heap.Distinct) ∧
      (∀ program, (Run.left (Run.program program s m)).heap.Distinct) ∧
      (∀ handler data, (∀ json ∈ data, ∃ payload, Json.ofBytes payload = .ok json) →
        (Run.left (Run.dispatch handler (Environment.messageEvent data) s m)).heap.Distinct) ∧
      (∀ handler port,
        (Run.left (Run.dispatch handler (Environment.connectEvent port) s m)).heap.Distinct) ∧
      ∀ id json,
        (m.heap.object id).kind = .ordinary ∨ (∃ kind, (m.heap.object id).kind = .error kind) →
        m.heap.toJson (.object id) = .ok json →
        ∃ members, json = .object members ∧ Json.Ascending members ∧ ∀ key, ∃ value,
          Run.getProperty (.object id) key s m = .ok value m ∧
          ((members.lookup key).isSome ↔ value ≠ .undefined) ∧
          ∀ entry, members.lookup key = some entry → m.heap.toJson value = .ok entry := by
  refine ⟨distinct_after, fun s m hm => ?_⟩
  have hself := Evaluator.upholds_ofDepth Heap.distinct_lasting
  refine ⟨fun depth e frame => (hself depth).eval e frame s m hm,
    fun depth stmt frame => (hself depth).exec stmt frame s m hm,
    fun depth function this args name => ?_,
    fun program => Run.Upholds.program Heap.distinct_lasting program s m hm,
    fun handler data hdata => Run.upholds_message hdata s m hm,
    fun handler port => Run.upholds_connect handler port s m hm, fun id json hkind hjson => ?_⟩
  · exact ((hself depth).alike Heap.distinct_lasting).call function this args name s m hm
  · have hitems : (m.heap.object id).items? = none := by
      rcases hkind with hkind | ⟨kind, hkind⟩ <;> rw [HeapObject.items?, hkind]
    obtain ⟨members, hmembers, hascending, hentries⟩ :=
      Heap.toJson_members (hm.object id) hitems hjson
    exact ⟨members, hmembers, hascending, fun key => ⟨_, rfl, hentries key⟩⟩

section Examples

/-- A name given twice has its later value, and a name without a value is not written. -/
theorem serialization_agrees_literal :
    let s : Setting := ⟨fun _ _ => none, 100, 128, ⟨0, 0, 0⟩, 0⟩
    let empty := Machine.start (.empty 0 {}) Scopes.empty.openGlobal.2 none
      (.new "" [] true (.dedicated .new))
    let literal := Source.Expr.object [("a", .bool true), ("b", .undefined), ("a", .bool false)]
    let m := Run.left ((Evaluator.ofDepth 2).eval literal ⟨0, .undefined⟩ s empty)
    empty.heap.Distinct ∧ m.heap.Distinct ∧
      ∃ members entry, m.heap.toJson (.object ⟨0, 0, 0⟩) = .ok (.object members) ∧
        members.lookup "a" = some entry ∧ m.heap.toJson (.bool false) = .ok entry ∧
        members.lookup "b" = none := by
  intro s empty literal m
  have hempty : empty.heap.Distinct := .empty (HeapObject.distinct_bare .ordinary) 0 {}
  have hm : m.heap.Distinct := (serialization_agrees.2 s empty hempty).1 _ _ _
  have haccepts : (m.heap.toJson (.object ⟨0, 0, 0⟩)).isOk = true := by decide +kernel
  have ha : Heap.propertyOf (m.heap.object ⟨0, 0, 0⟩) "a" = .bool false := by decide +kernel
  have hb : Heap.propertyOf (m.heap.object ⟨0, 0, 0⟩) "b" = .undefined := by decide +kernel
  have hitems : (m.heap.object ⟨0, 0, 0⟩).items?.isSome = false := by decide +kernel
  have hcallable : (m.heap.object ⟨0, 0, 0⟩).isCallable = false := by decide +kernel
  clear_value m
  refine ⟨hempty, hm, ?_⟩
  have hkind : (m.heap.object ⟨0, 0, 0⟩).kind = .ordinary ∨
      ∃ kind, (m.heap.object ⟨0, 0, 0⟩).kind = .error kind := by
    rw [HeapObject.items?] at hitems
    rw [HeapObject.isCallable] at hcallable
    cases hk : (m.heap.object ⟨0, 0, 0⟩).kind <;> simp_all
  cases hjson : m.heap.toJson (.object ⟨0, 0, 0⟩) with
  | error error => simp [hjson, Except.isOk, Except.toBool] at haccepts
  | ok json =>
    obtain ⟨-, -, -, -, -, -, hwritten⟩ := serialization_agrees.2 s m hm
    obtain ⟨members, rfl, -, hentries⟩ := hwritten _ json hkind hjson
    obtain ⟨a, hreadA, hwrittenA, hentryA⟩ := hentries "a"
    obtain ⟨b, hreadB, hwrittenB, -⟩ := hentries "b"
    obtain rfl : a = .bool false := (EStateM.Result.ok.inj hreadA).1.symm.trans ha
    obtain rfl : b = .undefined := (EStateM.Result.ok.inj hreadB).1.symm.trans hb
    obtain ⟨entry, hentry⟩ := Option.isSome_iff_exists.1 (hwrittenA.2 (by decide))
    refine ⟨members, entry, rfl, hentry, hentryA entry hentry, ?_⟩
    exact Option.not_isSome_iff_eq_none.1 fun hsome => hwrittenB.1 hsome rfl

end Examples

end Session

end ScriptHost

import ScriptHost.Heap.Basic
import ScriptHost.Host

/-!
The global scope of a worker. Its objects belong to the host, so they are not charged to scripts.
-/

namespace ScriptHost

structure GlobalScope where
  object : ObjectId
  scope : ScopeId
  deriving DecidableEq, Repr

namespace GlobalScope

abbrev Building := StateM Heap

def make (object : HeapObject) : Building Value := fun h =>
  let (id, h) := h.allocateHost object
  (.object id, h)

def lend (function : Native) : Building Value :=
  make ⟨.native function, []⟩

def lendAll (functions : List (String × Native)) : Building (Table Value) :=
  functions.mapM fun (name, function) => do pure (name, ← lend function)

theorem lendAll_cons (name : String) (function : Native) (rest : List (String × Native)) :
    lendAll ((name, function) :: rest) = (do
      let value ← lend function
      let values ← lendAll rest
      pure ((name, value) :: values)) := by
  simp only [lendAll, List.mapM_cons, bind_assoc, pure_bind]

def console : List (String × Native) :=
  LogLevel.all.map fun level => (level.method, .console level)

def json : List (String × Native) :=
  [("stringify", .jsonStringify), ("parse", .jsonParse)]

def errors : List (String × Native) :=
  ErrorKind.constructors.map fun kind => (kind.name, .errorConstructor kind)

def env (host : Host) : Table Value :=
  (host.env.mergeSort fun a b => a.1 ≤ b.1).foldl (fun t (key, value) => t.put key (.string value))
    []

def roleProperties (host : Host) : Building (Table Value) :=
  match host.role with
  | .dedicated _ => do pure [("postMessage", ← lend .postMessage), ("onmessage", .null)]
  | .shared name _ => pure [("name", .string name), ("onconnect", .null)]

def properties (host : Host) : Building (Table Value) := do
  let console ← lendAll console
  let console ← make ⟨.ordinary, console⟩
  let json ← lendAll json
  let json ← make ⟨.ordinary, json⟩
  let env ← make ⟨.ordinary, env host⟩
  let errors ← lendAll errors
  let close ← lend .close
  let role ← roleProperties host
  pure ([("console", console), ("JSON", json), ("env", env)] ++ errors
    ++ [("location", .string host.location), ("close", close), ("NaN", .number (0.0 / 0.0)),
      ("Infinity", .number (1.0 / 0.0))] ++ role)

/-- The global object knows itself as `self`. -/
def build (heap : Heap) (scopes : Scopes) (host : Host) : GlobalScope × Heap × Scopes :=
  let (properties, heap) := properties host heap
  let (object, heap) := heap.allocateHost ⟨.ordinary, properties⟩
  let heap := heap.update object fun o => o.put "self" (.object object)
  let (scope, scopes) := scopes.openGlobal
  (⟨object, scope⟩, heap, scopes)

end GlobalScope

end ScriptHost

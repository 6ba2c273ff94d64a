import ScriptHost.Table
import ScriptHost.Value

/-!
Scopes: the variables a name may mean, from the innermost scope outward.
-/

namespace ScriptHost

abbrev ScopeId := Nat

inductive ScopeKind where
  | global
  | function
  | block
  deriving DecidableEq, Repr

structure Binding where
  value : Value
  isMutable : Bool
  deriving DecidableEq, Repr

structure Scope where
  kind : ScopeKind
  bindings : Table Binding
  parent : Option ScopeId
  deriving DecidableEq, Repr

/-- Every scope that was ever opened; a scope comes after the one around it. -/
structure Scopes where
  entries : Array Scope
  outward : ∀ (id : ScopeId) (h : id < entries.size) (parent : ScopeId),
    entries[id].parent = some parent → parent < id

namespace Scopes

def empty : Scopes := ⟨#[], fun _ h => absurd h (Nat.not_lt_zero _)⟩

def get? (s : Scopes) (id : ScopeId) : Option Scope :=
  s.entries[id]?

def size (s : Scopes) : Nat := s.entries.size

theorem push_outward (s : Scopes) (scope : Scope)
    (hs : ∀ parent, scope.parent = some parent → parent < s.size) (id : ScopeId)
    (h : id < (s.entries.push scope).size) (parent : ScopeId)
    (hp : (s.entries.push scope)[id].parent = some parent) : parent < id := by
  have hle : id ≤ s.size := Nat.le_of_lt_succ (by simpa [size] using h)
  rw [Array.getElem_push] at hp
  split at hp
  · exact s.outward id _ parent hp
  · next hnot =>
    have hid : id = s.size := Nat.le_antisymm hle (Nat.le_of_not_lt hnot)
    exact hid ▸ hs parent hp

def openGlobal (s : Scopes) : ScopeId × Scopes :=
  (s.size, ⟨s.entries.push ⟨.global, [], none⟩, s.push_outward _ (fun _ h => nomatch h)⟩)

theorem parent_lt_size (s : Scopes) {around parent : ScopeId}
    (h : (if around < s.size then some around else none) = some parent) : parent < s.size := by
  split at h
  · next hlt => exact Option.some.inj h ▸ hlt
  · exact nomatch h

def openChild (s : Scopes) (kind : ScopeKind) (around : ScopeId) : ScopeId × Scopes :=
  (s.size, ⟨s.entries.push ⟨kind, [], if around < s.size then some around else none⟩,
    s.push_outward _ (fun _ h => s.parent_lt_size h)⟩)

/-- The innermost scope, from the one given outward, for which the function has an answer. -/
def innermost? {α : Type} (s : Scopes) (f : Scope → Option α) (id : ScopeId) :
    Option (ScopeId × α) :=
  if h : id < s.entries.size then
    match f s.entries[id] with
    | some a => some (id, a)
    | none =>
        match hp : s.entries[id].parent with
        | some parent => innermost? s f parent
        | none => none
  else none
termination_by id
decreasing_by exact s.outward id h parent hp

def binding? (s : Scopes) (name : String) (id : ScopeId) : Option (ScopeId × Binding) :=
  s.innermost? (fun scope => scope.bindings.get? name) id

def lookup? (s : Scopes) (name : String) (id : ScopeId) : Option Value :=
  (s.binding? name id).map fun (_, binding) => binding.value

/-- The scope of variables: that of the nearest function, or the global one. -/
def variableScope (s : Scopes) (id : ScopeId) : ScopeId :=
  match s.innermost? (fun scope => if scope.kind = .block then none else some ()) id with
  | some (found, _) => found
  | none => id

def kind? (s : Scopes) (id : ScopeId) : Option ScopeKind :=
  (s.get? id).map Scope.kind

def declares (s : Scopes) (id : ScopeId) (name : String) : Bool :=
  match s.get? id with
  | some scope => (scope.bindings.get? name).isSome
  | none => false

theorem modify_outward (s : Scopes) (target : ScopeId) (f : Scope → Scope)
    (hf : ∀ scope, (f scope).parent = scope.parent) (id : ScopeId)
    (h : id < (s.entries.modify target f).size) (parent : ScopeId)
    (hp : (s.entries.modify target f)[id].parent = some parent) : parent < id := by
  rw [Array.getElem_modify] at hp
  split at hp
  · exact s.outward id _ parent (hf _ ▸ hp)
  · exact s.outward id _ parent hp

def bind (s : Scopes) (id : ScopeId) (name : String) (binding : Binding) : Scopes :=
  ⟨s.entries.modify id fun scope => { scope with bindings := scope.bindings.put name binding },
    s.modify_outward id _ (fun _ => rfl)⟩

end Scopes

end ScriptHost

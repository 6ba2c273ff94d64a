import ScriptHost.Proofs.Run.Keeping

/-!
Constants. Nothing that a script does takes one from a scope, or changes it, but a variable of the
same name that is given a value in the function the constant belongs to.
-/

namespace ScriptHost

open Source (Expr Stmt)

/-! ## Scopes -/

namespace Scopes

def own? (s : Scopes) (id : ScopeId) (name : String) : Option Binding :=
  (s.get? id).bind fun scope => scope.bindings.get? name

/--
Later scopes: there may be more of them, around and of the kinds that they were. Variables stay
variables, and constants stay as they are, but for those that may become variables.
-/
structure Extends (lost : ScopeId → String → Prop) (s s' : Scopes) : Prop where
  shape : ∀ id scope, s.get? id = some scope →
    ∃ scope', s'.get? id = some scope' ∧ scope'.kind = scope.kind ∧ scope'.parent = scope.parent
  constant : ∀ id name v, s.own? id name = some ⟨v, false⟩ → s'.own? id name = some ⟨v, false⟩ ∨
    lost id name ∧ ∃ w, s'.own? id name = some ⟨w, true⟩
  changeable : ∀ id name v, s.own? id name = some ⟨v, true⟩ →
    ∃ w, s'.own? id name = some ⟨w, true⟩

variable {lost more : ScopeId → String → Prop} {s s' s'' : Scopes} {id owner : ScopeId}
  {name : String}

theorem lt_size_iff : id < s.size ↔ ∃ scope, s.get? id = some scope :=
  ⟨fun h => ⟨_, Array.getElem?_eq_getElem h⟩, fun ⟨_, h⟩ => (Array.getElem?_eq_some_iff.1 h).1⟩

theorem lt_size_of_own? {b : Binding} (h : s.own? id name = some b) : id < s.size := by
  obtain ⟨scope, hscope, -⟩ := Option.bind_eq_some_iff.1 h
  exact lt_size_iff.2 ⟨scope, hscope⟩

theorem declares_eq_false_iff : s.declares id name = false ↔ s.own? id name = none := by
  unfold declares own?
  cases s.get? id with
  | none => exact ⟨fun _ => rfl, fun _ => rfl⟩
  | some scope => exact Bool.not_eq_true _ ▸ Option.not_isSome_iff_eq_none

namespace Extends

theorem refl (s : Scopes) : s.Extends lost s :=
  ⟨fun _ scope h => ⟨scope, h, rfl, rfl⟩, fun _ _ _ => .inl, fun _ _ v h => ⟨v, h⟩⟩

theorem trans (h : s.Extends lost s') (h' : s'.Extends lost s'') : s.Extends lost s'' := by
  refine ⟨fun id scope hget => ?_, fun id name v hv => ?_, fun id name v hv => ?_⟩
  · obtain ⟨scope', hget', hkind, hparent⟩ := h.shape id scope hget
    obtain ⟨scope'', hget'', hkind', hparent'⟩ := h'.shape id scope' hget'
    exact ⟨scope'', hget'', hkind'.trans hkind, hparent'.trans hparent⟩
  · rcases h.constant id name v hv with hkept | ⟨hlost, w, hw⟩
    · exact h'.constant id name v hkept
    · exact .inr ⟨hlost, h'.changeable id name w hw⟩
  · obtain ⟨w, hw⟩ := h.changeable id name v hv
    exact h'.changeable id name w hw

theorem mono (h : s.Extends lost s')
    (hmore : ∀ id name, id < s.size → lost id name → more id name) : s.Extends more s' := by
  refine ⟨h.shape, fun id name v hv => ?_, h.changeable⟩
  rcases h.constant id name v hv with hkept | ⟨hlost, hw⟩
  · exact .inl hkept
  · exact .inr ⟨hmore id name (lt_size_of_own? hv) hlost, hw⟩

theorem kind? (h : s.Extends lost s') (hid : id < s.size) : s'.kind? id = s.kind? id := by
  obtain ⟨scope, hscope⟩ := lt_size_iff.1 hid
  obtain ⟨scope', hscope', hkind, -⟩ := h.shape id scope hscope
  rw [Scopes.kind?, Scopes.kind?, hscope, hscope', Option.map_some, Option.map_some, hkind]

theorem innermost? {α : Type} {f : Scope → Option α} (h : s.Extends lost s') (hid : id < s.size)
    (hf : ∀ scope scope' : Scope, scope'.kind = scope.kind → f scope' = f scope) :
    s'.innermost? f id = s.innermost? f id := by
  induction id using Nat.strongRecOn with
  | ind id ih =>
    obtain ⟨scope, hscope⟩ := lt_size_iff.1 hid
    obtain ⟨scope', hscope', hkind, hparent⟩ := h.shape id scope hscope
    rw [innermost?_eq, innermost?_eq, hscope, hscope', Option.bind_some, Option.bind_some,
      hf scope scope' hkind, hparent]
    cases f scope with
    | some a => rfl
    | none =>
      cases houter : scope.parent with
      | none => rfl
      | some parent =>
        have hlt := s.parent_lt hscope houter
        exact ih parent hlt (Nat.lt_trans hlt hid)

end Extends

/-! ### What is done to scopes -/

theorem own?_push {scope : Scope} (h : s'.entries = s.entries.push scope)
    (hempty : scope.bindings = []) (id : ScopeId) (name : String) :
    s'.own? id name = s.own? id name := by
  unfold own? get?
  rw [h, Array.getElem?_push]
  split
  · next heq =>
    rw [heq, Array.getElem?_eq_none (Nat.le_refl _), Option.bind_some, hempty]
    rfl
  · rfl

theorem extends_push {scope : Scope} (h : s'.entries = s.entries.push scope)
    (hempty : scope.bindings = []) : s.Extends lost s' := by
  refine ⟨fun id old hget => ?_, fun id name v hv => ?_, fun id name v hv => ?_⟩
  · have hlt := lt_size_iff.2 ⟨old, hget⟩
    refine ⟨old, ?_, rfl, rfl⟩
    rw [get?, h]
    exact (Array.getElem?_push_lt hlt).trans (Array.getElem?_eq_getElem hlt ▸ hget)
  · exact .inl ((own?_push h hempty id name).trans hv)
  · exact ⟨v, (own?_push h hempty id name).trans hv⟩

theorem extends_openChild (s : Scopes) (kind : ScopeKind) (around : ScopeId) :
    s.Extends lost (s.openChild kind around).2 :=
  extends_push rfl rfl

theorem own?_bind (s : Scopes) (target : ScopeId) (bound : String) (b : Binding) (id : ScopeId)
    (name : String) :
    (s.bind target bound b).own? id name =
      if target = id ∧ bound = name ∧ id < s.size then some b else s.own? id name := by
  unfold own? get? bind
  rw [Array.getElem?_modify]
  by_cases htarget : target = id
  · subst htarget
    by_cases hlt : target < s.entries.size
    · rw [if_pos rfl, Array.getElem?_eq_getElem hlt, Option.map_some, Option.bind_some,
        Option.bind_some, Table.get?_put]
      by_cases hname : bound = name
      · rw [if_pos hname, if_pos ⟨rfl, hname, hlt⟩]
      · rw [if_neg hname, if_neg fun h => hname h.2.1]
    · rw [if_pos rfl, Array.getElem?_eq_none (Nat.le_of_not_lt hlt),
        if_neg fun h : target = target ∧ bound = name ∧ target < s.size => hlt h.2.2]
      rfl
  · rw [if_neg htarget, if_neg fun h : target = id ∧ bound = name ∧ id < s.size => htarget h.1]

/-- A constant may be bound where there is nothing yet, and a variable where no constant is. -/
theorem extends_bind {b : Binding}
    (hconstant : ∀ v, s.own? id name = some ⟨v, false⟩ → lost id name ∧ b.isMutable = true)
    (hchangeable : ∀ v, s.own? id name = some ⟨v, true⟩ → b.isMutable = true) :
    s.Extends lost (s.bind id name b) := by
  have hbound (isMutable : b.isMutable = true) : b = ⟨b.value, true⟩ := by
    rw [← isMutable]
  refine ⟨fun other scope hget => ?_, fun other x v hv => ?_, fun other x v hv => ?_⟩
  · unfold get? bind
    rw [Array.getElem?_modify]
    split
    · exact ⟨_, congrArg (Option.map _) hget, rfl, rfl⟩
    · exact ⟨scope, hget, rfl, rfl⟩
  · rw [own?_bind]
    split
    · next heq =>
      obtain ⟨rfl, rfl, -⟩ := heq
      obtain ⟨hlost, hmutable⟩ := hconstant v hv
      exact .inr ⟨hlost, b.value, congrArg some (hbound hmutable)⟩
    · exact .inl hv
  · rw [own?_bind]
    split
    · next heq =>
      obtain ⟨rfl, rfl, -⟩ := heq
      exact ⟨b.value, congrArg some (hbound (hchangeable v hv))⟩
    · exact ⟨v, hv⟩

theorem own?_of_binding? {b : Binding} {found : ScopeId}
    (h : s.binding? name id = some (found, b)) :
    s.own? found name = some b := by
  unfold binding? at h
  induction id using Nat.strongRecOn with
  | ind id ih =>
    rw [innermost?_eq] at h
    obtain ⟨scope, hscope, h⟩ := Option.bind_eq_some_iff.1 h
    cases hget : scope.bindings.get? name with
    | some c =>
      rw [hget] at h
      obtain ⟨rfl, rfl⟩ := Prod.mk.inj (Option.some.inj h)
      rw [own?, hscope, Option.bind_some, hget]
    | none =>
      rw [hget] at h
      obtain ⟨parent, hparent, h⟩ := Option.bind_eq_some_iff.1 h
      exact ih parent (s.parent_lt hscope hparent) h

/-! ### The scope that variables belong to -/

/-- The scope given is that of the variables of the frame. -/
def Within (s : Scopes) (owner : ScopeId) (frame : Frame) : Prop :=
  s.innermost? (fun scope => if scope.kind = .block then none else some ()) frame.scope =
    some (owner, ())

namespace Within

variable {frame : Frame}

theorem variableScope (hf : s.Within owner frame) : s.variableScope frame.scope = owner := by
  unfold Scopes.variableScope
  rw [hf]

theorem isOpen (hf : s.Within owner frame) : frame.scope < s.size := by
  unfold Within at hf
  rw [innermost?_eq] at hf
  obtain ⟨scope, hscope, -⟩ := Option.bind_eq_some_iff.1 hf
  exact lt_size_iff.2 ⟨scope, hscope⟩

theorem later (hf : s.Within owner frame) (h : s.Extends lost s') : s'.Within owner frame :=
  (h.innermost? hf.isOpen fun _ _ hkind => by rw [hkind]).trans hf

theorem owner_lt (hf : s.Within owner frame) : owner < s.size := by
  obtain ⟨id, this⟩ := frame
  unfold Within at hf
  induction id using Nat.strongRecOn with
  | ind id ih =>
    dsimp only at hf ih
    rw [innermost?_eq] at hf
    obtain ⟨scope, hscope, hf⟩ := Option.bind_eq_some_iff.1 hf
    split at hf
    · obtain ⟨rfl, -⟩ := Prod.mk.inj (Option.some.inj hf)
      exact lt_size_iff.2 ⟨scope, hscope⟩
    · obtain ⟨parent, hparent, hf⟩ := Option.bind_eq_some_iff.1 hf
      exact ih parent (s.parent_lt hscope hparent) hf

end Within

theorem get?_opened (s : Scopes) (kind : ScopeKind) (around : ScopeId) :
    (s.openChild kind around).2.get? s.size =
      some ⟨kind, [], if around < s.size then some around else none⟩ :=
  Array.getElem?_push_size

theorem Within.block {frame : Frame} (hf : s.Within owner frame) :
    (s.openChild .block frame.scope).2.Within owner { frame with scope := s.size } := by
  have hopened : s.Extends (fun _ _ => False) (s.openChild .block frame.scope).2 :=
    s.extends_openChild .block frame.scope
  have hlater := hf.later hopened
  unfold Within at hlater ⊢
  rw [innermost?_eq, get?_opened, if_pos hf.isOpen]
  exact hlater

theorem within_function (s : Scopes) (closure : ScopeId) (this : Value) :
    (s.openChild .function closure).2.Within s.size ⟨s.size, this⟩ := by
  unfold Within
  rw [innermost?_eq, get?_opened]
  rfl

theorem within_global (h : s.kind? id = some .global) (this : Value) : s.Within id ⟨id, this⟩ := by
  obtain ⟨scope, hscope, hkind⟩ := Option.map_eq_some_iff.1 h
  unfold Within
  rw [innermost?_eq, hscope, Option.bind_some, hkind]
  rfl

end Scopes

/-! ## Statements -/

/--
The statement gives a value to a variable of the name, or declares a function of the name, apart
from what the functions in it do when they are called.
-/
inductive Source.Stmt.Assigns (name : String) : Stmt → Prop
  | declared {line : Nat} {declarations : List (String × Option Expr)} {e : Expr} :
      (name, some e) ∈ declarations → Assigns name (.mk line (.declare .variable declarations))
  | function {line : Nat} {code : Source.Function} : code.name.getD "" = name →
      Assigns name (.mk line (.function code))
  | block {line : Nat} {body : List Stmt} {stmt : Stmt} : stmt ∈ body → Assigns name stmt →
      Assigns name (.mk line (.block body))
  | consequent {line : Nat} {test : Expr} {consequent : Stmt} {alternate : Option Stmt} :
      Assigns name consequent → Assigns name (.mk line (.branch test consequent alternate))
  | alternate {line : Nat} {test : Expr} {consequent alternate : Stmt} :
      Assigns name alternate → Assigns name (.mk line (.branch test consequent (some alternate)))
  | whileLoop {line : Nat} {test : Expr} {body : Stmt} :
      Assigns name body → Assigns name (.mk line (.whileLoop test body))
  | doLoop {line : Nat} {test : Expr} {body : Stmt} :
      Assigns name body → Assigns name (.mk line (.doLoop body test))
  | init {line : Nat} {init : Stmt} {test update : Option Expr} {body : Stmt} :
      Assigns name init → Assigns name (.mk line (.forLoop (some init) test update body))
  | forLoop {line : Nat} {init : Option Stmt} {test update : Option Expr} {body : Stmt} :
      Assigns name body → Assigns name (.mk line (.forLoop init test update body))
  | guarded {line : Nat} {block : List Stmt} {param : Option String}
      {handler finalizer : Option (List Stmt)} {stmt : Stmt} : stmt ∈ block → Assigns name stmt →
      Assigns name (.mk line (.attempt block param handler finalizer))
  | handler {line : Nat} {block handler : List Stmt} {param : Option String}
      {finalizer : Option (List Stmt)} {stmt : Stmt} : stmt ∈ handler → Assigns name stmt →
      Assigns name (.mk line (.attempt block param (some handler) finalizer))
  | finalizer {line : Nat} {block finalizer : List Stmt} {param : Option String}
      {handler : Option (List Stmt)} {stmt : Stmt} : stmt ∈ finalizer → Assigns name stmt →
      Assigns name (.mk line (.attempt block param handler (some finalizer)))

variable {α β : Type} {lost : ScopeId → String → Prop} {c : Scopes} {names : String → Prop}
  {frame : Frame}

/-- Variables of these names may take the place of constants where the frame has its variables. -/
def Scopes.Allows (c : Scopes) (lost : ScopeId → String → Prop) (names : String → Prop)
    (frame : Frame) : Prop :=
  ∃ owner, c.Within owner frame ∧
    (c.kind? owner ≠ some .global → ∀ name, names name → lost owner name)

namespace Run

/-- Whatever extends the scopes given, the computation extends them further. -/
abbrev Spares (c : Scopes) (lost : ScopeId → String → Prop) (x : Run α) : Prop :=
  Keeps (fun scopes _ => c.Extends lost scopes) x

namespace Spares

theorem assignName (name : String) (value : Value) (frame : Frame) :
    Spares c lost (assignName name value frame) := by
  intro s m hm
  unfold Run.assignName
  rw [bind_ok (rfl : scopes s m = .ok m.scopes m)]
  cases hfound : m.scopes.binding? name frame.scope with
  | some found =>
    have hown := Scopes.own?_of_binding? hfound
    dsimp only
    split
    · next hmutable =>
      refine hm.trans (Scopes.extends_bind (fun v hv => ?_) fun _ _ => rfl)
      rw [Option.some.inj (hown.symm.trans hv)] at hmutable
      exact nomatch hmutable
    · exact (Keeps.complain _ : Spares c lost _) s m hm
  | none => exact (Keeps.onHeap _ : Spares c lost _) s m hm

theorem alike (c : Scopes) (lost : ScopeId → String → Prop) :
    Alike fun α x _ => @Spares α c lost x :=
  Keeps.alike assignName

/-! ### Declarations -/

theorem bindFresh {scope : ScopeId} (hscope : ∀ name, lost scope name) (name : String)
    (value : Value) : Spares c lost (Run.bind scope name ⟨value, true⟩) :=
  fun _ _ hm => hm.trans (Scopes.extends_bind (fun _ _ => ⟨hscope name, rfl⟩) fun _ _ => rfl)

theorem declareVariable (hf : c.Allows lost names frame) (name : String) {value : Option Value}
    (hname : value.isSome = true → names name) :
    Spares c lost (declareVariable frame name value) := by
  obtain ⟨owner, hwithin, hlost⟩ := hf
  intro s m hm
  have hkind := hm.kind? hwithin.owner_lt
  unfold Run.declareVariable
  rw [bind_ok (rfl : scopes s m = .ok m.scopes m)]
  dsimp only
  rw [(hwithin.later hm).variableScope, hkind]
  split
  · rw [bind_ok (rfl : setting s m = .ok s m), bind_ok (rfl : heap s m = .ok m.heap m)]
    cases value with
    | some value => exact (Keeps.onHeap _ : Spares c lost _) s m hm
    | none =>
      cases (m.heap.object s.globalObject).get? name with
      | none => exact (Keeps.onHeap _ : Spares c lost _) s m hm
      | some _ => exact hm
  · next hlocal =>
    cases value with
    | some value =>
      exact hm.trans (Scopes.extends_bind (fun _ _ => ⟨hlost hlocal name (hname rfl), rfl⟩)
        fun _ _ => rfl)
    | none =>
      dsimp only
      split
      · exact hm
      · next hnew =>
        refine hm.trans (Scopes.extends_bind (fun v hv => ?_) fun _ _ => rfl)
        rw [Scopes.declares_eq_false_iff.1 (by simpa using hnew)] at hv
        exact nomatch hv

theorem declareLexical (frame : Frame) (isMutable : Bool) (name : String) (value : Value) :
    Spares c lost (declareLexical frame isMutable name value) := by
  intro s m hm
  unfold Run.declareLexical
  rw [bind_ok (rfl : scopes s m = .ok m.scopes m)]
  split
  · exact (Keeps.complain _ : Spares c lost _) s m hm
  · next hnew =>
    have hnone := Scopes.declares_eq_false_iff.1 (by simpa using hnew)
    refine hm.trans (Scopes.extends_bind (fun v hv => ?_) fun v hv => ?_)
    · exact nomatch hnone.symm.trans hv
    · exact nomatch hnone.symm.trans hv

theorem declare (hf : c.Allows lost names frame) (binder : Source.Binder) (name : String)
    {value : Option Value} (hname : binder = .variable → value.isSome = true → names name) :
    Spares c lost (declare frame binder name value) := by
  cases binder with
  | «variable» => exact declareVariable hf name (hname rfl)
  | mutable => exact declareLexical frame true name _
  | constant => exact declareLexical frame false name _

/-! ### New scopes -/

/-- A scope that was just opened has no constants to lose. -/
theorem opened {kind : ScopeKind} {around : ScopeId} {f : ScopeId → Run α}
    (hf : ∀ a, c.Extends lost a → Spares (a.openChild kind around).2
      (fun id name => lost id name ∨ id = a.size) (f a.size)) :
    Spares c lost (onScopes (fun scopes => scopes.openChild kind around) >>= f) := by
  intro s m hm
  have hinside := hf m.scopes hm s { m with scopes := (m.scopes.openChild kind around).2 } (.refl _)
  refine hm.trans (((m.scopes.extends_openChild kind around).trans hinside).mono ?_)
  rintro id name hid (hlost | rfl)
  · exact hlost
  · exact absurd hid (Nat.lt_irrefl _)

theorem openBlock {f : Frame → Run α} (hf : c.Allows lost names frame)
    (hinner : ∀ c' lost' inner, Scopes.Allows c' lost' names inner →
      (∀ name, lost' inner.scope name) → Spares c' lost' (f inner)) :
    Spares c lost (Run.openBlock frame >>= f) := by
  obtain ⟨owner, hwithin, hlost⟩ := hf
  have hopened : Run.openBlock frame >>= f = onScopes (fun scopes =>
      scopes.openChild .block frame.scope) >>= fun scope => f { frame with scope := scope } := by
    simp only [Run.openBlock, bind_assoc, pure_bind]
  rw [hopened]
  refine opened fun a ha => hinner _ _ _ ⟨owner, (hwithin.later ha).block, ?_⟩ fun _ => .inr rfl
  intro hlocal name hname
  have hkind := (ha.trans (a.extends_openChild .block frame.scope)).kind? hwithin.owner_lt
  exact .inl (hlost (hkind ▸ hlocal) name hname)

end Spares

end Run

/-! ## Evaluators -/

namespace Evaluator

open Run

/-- Expressions lose no constants, and statements those whose names they give to variables. -/
structure Spares (E : Evaluator) : Prop where
  eval : ∀ {c : Scopes} {lost : ScopeId → String → Prop} (e : Expr) (frame : Frame),
    Run.Spares c lost (E.eval e frame)
  exec : ∀ {c : Scopes} {lost : ScopeId → String → Prop} {names : String → Prop} {frame : Frame},
    c.Allows lost names frame → ∀ {stmt : Stmt}, (∀ name, stmt.Assigns name → names name) →
      Run.Spares c lost (E.exec stmt frame)

theorem hoist_spares (hf : c.Allows lost names frame) {body : List Stmt}
    (hbody : ∀ stmt ∈ body, ∀ name, stmt.Assigns name → names name) :
    Run.Spares c lost (hoist frame body) := by
  induction body with
  | nil => exact .pure ()
  | cons stmt rest ih =>
    obtain ⟨hfirst, hrest⟩ := List.forall_mem_cons.1 hbody
    obtain ⟨line, kind⟩ := stmt
    cases kind with
    | function code =>
      refine ((Run.Spares.alike c lost).makeFunction code frame.scope).bind fun function => ?_
      refine (Run.Spares.declareVariable hf _ fun _ => hfirst _ (.function rfl)).bind fun _ => ?_
      exact ih hrest
    | _ => exact ih hrest

theorem bindParams_spares {scope : ScopeId} (hscope : ∀ name, lost scope name)
    (params : List String) (args : List Value) :
    Run.Spares c lost (bindParams scope params args) := by
  induction params generalizing args with
  | nil => exact .pure ()
  | cons param params ih => exact (Run.Spares.bindFresh hscope _ _).bind fun _ => ih _

namespace Spares

variable {self : Evaluator}

section Rules

variable (h : self.Spares)

include h

theorem execEach (hf : c.Allows lost names frame) {body : List Stmt}
    (hbody : ∀ stmt ∈ body, ∀ name, stmt.Assigns name → names name) :
    Run.Spares c lost (self.execEach frame body) := by
  induction body with
  | nil => exact .pure ()
  | cons stmt rest ih =>
    obtain ⟨hfirst, hrest⟩ := List.forall_mem_cons.1 hbody
    exact (h.exec hf hfirst).bind fun _ => ih hrest

theorem execStatements (hf : c.Allows lost names frame) {body : List Stmt}
    (hbody : ∀ stmt ∈ body, ∀ name, stmt.Assigns name → names name) :
    Run.Spares c lost (self.execStatements body frame) :=
  (hoist_spares hf hbody).bind fun _ => h.execEach hf hbody

theorem execBlock (hf : c.Allows lost names frame) {body : List Stmt}
    (hbody : ∀ stmt ∈ body, ∀ name, stmt.Assigns name → names name) :
    Run.Spares c lost (self.execBlock body frame) :=
  .openBlock hf fun _ _ _ hinner _ => h.execStatements hinner hbody

/-- What a function does to its variables concerns a scope that was opened for the call. -/
theorem callScript (code : Source.Function) (closure : ScopeId) (this : Value)
    (args : List Value) : Run.Spares c lost (self.callScript code closure this args) := by
  refine Keeps.checkCallDepth.bind fun _ => Keeps.safePoint.bind fun _ => ?_
  refine Run.Spares.opened fun a _ => ?_
  refine (bindParams_spares (fun _ => .inr rfl) code.params args).bind fun _ => ?_
  have hbody (this : Value) : Run.Spares (a.openChild .function closure).2
      (fun id name => lost id name ∨ id = a.size)
      (do
        let ending ← attempt (inCall (self.execStatements code.body ⟨a.size, this⟩))
        functionResult ending) := by
    have hframe : (a.openChild .function closure).2.Allows
        (fun id name => lost id name ∨ id = a.size) (fun _ => True) ⟨a.size, this⟩ :=
      ⟨a.size, a.within_function closure this, fun _ _ _ => .inr rfl⟩
    have hstatements := h.execStatements hframe fun stmt (_ : stmt ∈ code.body) _ _ => trivial
    exact (Keeps.inCall fun _ => hstatements).attempt.bind .functionResult
  split
  · exact Keeps.bind (fun _ _ hm => hm) hbody
  · exact hbody this

theorem alike (c : Scopes) (lost : ScopeId → String → Prop) :
    self.Alike (fun α x _ => @Run.Spares α c lost x) self where
  steps := Run.Spares.alike c lost
  eval := h.eval
  callScript := h.callScript

theorem evalExpr (e : Expr) (frame : Frame) : Run.Spares c lost (self.evalExpr e frame) :=
  (h.alike c lost).evalExpr frame e

theorem execDeclarations (hf : c.Allows lost names frame) {binder : Source.Binder}
    {declarations : List (String × Option Expr)}
    (hnames : binder = .variable → ∀ name e, (name, some e) ∈ declarations → names name) :
    Run.Spares c lost (self.execDeclarations frame binder declarations) := by
  induction declarations with
  | nil => exact .pure ()
  | cons declaration rest ih =>
    obtain ⟨name, init⟩ := declaration
    have hrest := ih fun hb name e he => hnames hb name e (List.mem_cons_of_mem _ he)
    cases init with
    | none =>
      have hname : binder = .variable → (none : Option Value).isSome = true → names name :=
        fun _ hsome => nomatch hsome
      exact (Run.Spares.declare hf binder name hname).bind fun _ => hrest
    | some e =>
      refine ((h.eval e frame).map some).bind fun value => ?_
      have hname : binder = .variable → value.isSome = true → names name :=
        fun hb _ => hnames hb name e List.mem_cons_self
      exact (Run.Spares.declare hf binder name hname).bind fun _ => hrest

/-! ### Loops -/

section Loops

variable {body : Stmt} (hf : c.Allows lost names frame)
  (hbody : ∀ name, body.Assigns name → names name)

include hf hbody

theorem loopBody : Run.Spares c lost (self.loopBody body frame) := by
  refine (h.exec hf hbody).attempt.bind fun ending => ?_
  split
  · exact .pure _
  · exact .pure _
  · exact .pure _
  · exact .error _

theorem whileRound (test : Expr) : Run.Spares c lost (self.whileRound test body frame) := by
  refine (h.eval test frame).bind fun test => ?_
  split
  · exact h.loopBody hf hbody
  · exact .pure _

theorem doRound (test : Expr) : Run.Spares c lost (self.doRound body test frame) := by
  refine (h.loopBody hf hbody).bind fun goesOn => ?_
  split
  · exact (h.eval test frame).bind fun test => .pure _
  · exact .pure _

theorem forUpdate (update : Option Expr) (goesOn : Bool) :
    Run.Spares c lost (if goesOn then do
      if ← self.loopBody body frame then do
        match update with
        | some update => do
            let _ ← self.eval update frame
            pure true
        | none => pure true
      else pure false
    else pure false) := by
  split
  · refine (h.loopBody hf hbody).bind fun goesOn => ?_
    split
    · cases update with
      | some update => exact (h.eval update frame).bind fun _ => .pure _
      | none => exact .pure _
    · exact .pure _
  · exact .pure _

theorem forRound (test update : Option Expr) :
    Run.Spares c lost (self.forRound test update body frame) := by
  have hupdate := h.forUpdate hf hbody update
  cases test with
  | none => exact hupdate true
  | some test => exact ((h.eval test frame).map Value.truthy).bind hupdate

end Loops

theorem execFor (hf : c.Allows lost names frame) {init : Option Stmt} {body : Stmt}
    (hinit : ∀ stmt ∈ init, ∀ name, stmt.Assigns name → names name)
    (hbody : ∀ name, body.Assigns name → names name) (test update : Option Expr) :
    Run.Spares c lost (self.execFor init test update body frame) := by
  refine .openBlock hf fun c' lost' inner hinner _ => ?_
  have hrounds : Run.Spares c' lost' (repeatWhile (self.forRound test update body inner)) :=
    (h.forRound hinner hbody test update).repeatWhile
  cases init with
  | none => exact hrounds
  | some init => exact (h.exec hinner (hinit init rfl)).aside.bind fun _ => hrounds

/-! ### Exceptions -/

theorem execHandler (hf : c.Allows lost names frame) {handler : List Stmt}
    (hhandler : ∀ stmt ∈ handler, ∀ name, stmt.Assigns name → names name) (param : Option String)
    (exception : Value) :
    Run.Spares c lost (self.execHandler param exception handler frame) := by
  refine .openBlock hf fun c' lost' inner hinner hfresh => ?_
  have hstatements := h.execStatements hinner hhandler
  cases param with
  | none => exact hstatements
  | some param => exact (Run.Spares.bindFresh hfresh param exception).bind fun _ => hstatements

theorem execGuarded (hf : c.Allows lost names frame) {block : List Stmt}
    {handler : Option (List Stmt)}
    (hblock : ∀ stmt ∈ block, ∀ name, stmt.Assigns name → names name)
    (hhandler : ∀ body ∈ handler, ∀ stmt ∈ body, ∀ name, stmt.Assigns name → names name)
    (param : Option String) :
    Run.Spares c lost (self.execGuarded block param handler frame) := by
  refine (h.execBlock hf hblock).attempt.bind fun ending => ?_
  split
  · exact (h.execHandler hf (hhandler _ rfl) param _).attempt
  · exact .pure _

theorem execAttempt (hf : c.Allows lost names frame) {block : List Stmt}
    {handler finalizer : Option (List Stmt)}
    (hblock : ∀ stmt ∈ block, ∀ name, stmt.Assigns name → names name)
    (hhandler : ∀ body ∈ handler, ∀ stmt ∈ body, ∀ name, stmt.Assigns name → names name)
    (hfinalizer : ∀ body ∈ finalizer, ∀ stmt ∈ body, ∀ name, stmt.Assigns name → names name)
    (param : Option String) :
    Run.Spares c lost (self.execAttempt block param handler finalizer frame) := by
  refine (h.execGuarded hf hblock hhandler param).bind fun ending => ?_
  have hended : Run.Spares c lost _ := Keeps.ended _ ending
  cases finalizer with
  | none => exact hended
  | some finalizer =>
    dsimp only
    split
    · exact hended
    · exact (h.execBlock hf (hfinalizer finalizer rfl)).aside.bind fun _ => hended

/-! ### All statements -/

theorem execKind (hf : c.Allows lost names frame) {line : Nat} {kind : Source.StmtKind}
    (hkind : ∀ name, (Stmt.mk line kind).Assigns name → names name) :
    Run.Spares c lost (self.execKind kind frame) := by
  cases kind with
  | expression e =>
    exact (h.eval e frame).bind fun value _ _ hm => hm
  | declare binder declarations =>
    refine h.execDeclarations hf fun hb name e he => ?_
    subst hb
    exact hkind name (.declared he)
  | function | empty => exact .pure _
  | block body => exact h.execBlock hf fun stmt hs name hn => hkind name (.block hs hn)
  | branch test consequent alternate =>
    refine (h.eval test frame).bind fun test => ?_
    split
    · exact h.exec hf fun name hn => hkind name (.consequent hn)
    · cases alternate with
      | none => exact .pure _
      | some alternate => exact h.exec hf fun name hn => hkind name (.alternate hn)
  | whileLoop test body =>
    exact (h.whileRound hf (fun name hn => hkind name (.whileLoop hn)) test).repeatWhile
  | doLoop body test =>
    exact (h.doRound hf (fun name hn => hkind name (.doLoop hn)) test).repeatWhile
  | forLoop init test update body =>
    refine h.execFor hf (fun stmt hs name hn => ?_) (fun name hn => hkind name (.forLoop hn)) _ _
    obtain rfl := Option.mem_def.1 hs
    exact hkind name (.init hn)
  | breakOff | continueOn => exact .error _
  | returnWith value =>
    cases value with
    | none => exact .error _
    | some e => exact (h.eval e frame).bind fun value => .error _
  | throwing e => exact (h.eval e frame).bind fun value _ _ hm => hm
  | attempt block param handler finalizer =>
    refine h.execAttempt hf (fun stmt hs name hn => hkind name (.guarded hs hn))
      (fun body hb stmt hs name hn => ?_) (fun body hb stmt hs name hn => ?_) param
    · obtain rfl := Option.mem_def.1 hb
      exact hkind name (.handler hs hn)
    · obtain rfl := Option.mem_def.1 hb
      exact hkind name (.finalizer hs hn)

theorem execStmt (hf : c.Allows lost names frame) {stmt : Stmt}
    (hstmt : ∀ name, stmt.Assigns name → names name) :
    Run.Spares c lost (self.execStmt stmt frame) := by
  obtain ⟨line, kind⟩ := stmt
  refine Keeps.bind (fun _ _ hm => hm) fun _ => ?_
  exact Keeps.safePoint.bind fun _ => h.execKind hf hstmt

end Rules

theorem ofDepth (depth : Nat) : (Evaluator.ofDepth depth).Spares := by
  induction depth with
  | zero => exact ⟨fun _ _ => .complain .stackOverflow, fun _ _ _ => .complain .stackOverflow⟩
  | succ depth ih =>
    exact ⟨fun e frame => (ih.evalExpr e frame).nested, fun hf _ hs => (ih.execStmt hf hs).nested⟩

end Spares

end Evaluator

/-! ## Whole runs -/

namespace Run

theorem spares_program {s : Setting} {m : Machine}
    (hglobal : c.kind? s.globalScope = some .global) (hm : c.Extends lost m.scopes)
    (body : Source.Program) : c.Extends lost (left (program body s m)).scopes := by
  have hframe : c.Allows lost (fun _ => True) ⟨s.globalScope, .object s.globalObject⟩ :=
    ⟨s.globalScope, Scopes.within_global hglobal _, fun hlocal => absurd hglobal hlocal⟩
  have hbody : Spares c lost (do
      Evaluator.full.execStatements body ⟨s.globalScope, .object s.globalObject⟩
      completion) :=
    ((Evaluator.Spares.ofDepth nestingLimit).execStatements hframe
      fun _ _ _ _ => trivial).bind fun _ _ _ hm => hm
  exact hbody s m hm

theorem spares_dispatch (handler : String) (event : Heap.Step Value) :
    Spares c lost (dispatch handler event) := by
  refine Keeps.safePoint.bind fun _ => Keeps.bind (fun _ _ hm => hm) fun s => ?_
  refine Keeps.bind (fun _ _ hm => hm) fun heap => ?_
  dsimp only
  split
  · refine (Keeps.onHeap event).bind fun event => ?_
    exact ((Evaluator.Spares.ofDepth nestingLimit).alike c lost).call _ _ _ _
  · exact .pure _

/-- A run, however it ends, takes no constant from the scopes that there were before it. -/
theorem spares_task {s : Setting} {m : Machine}
    (hglobal : m.scopes.kind? s.globalScope = some .global) (task : Task) :
    m.scopes.Extends lost (task.perform m s).2.scopes := by
  rw [Task.perform_eq, finish_left]
  cases task with
  | program body => exact spares_program hglobal (.refl _) body
  | message handler data => exact spares_dispatch handler _ s m (.refl _)
  | connect handler port => exact spares_dispatch handler _ s m (.refl _)

end Run

end ScriptHost

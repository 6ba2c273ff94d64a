import ScriptHost.Proofs.Coupling.Programs

/-!
The functions of a program, declared before it runs.
-/

namespace ScriptHost

namespace Source

def Stmt.declared? : Stmt → Option Function
  | .mk _ (.function code) => some code
  | _ => none

def declared (body : List Stmt) : List Function :=
  body.filterMap Stmt.declared?

end Source

/-- The functions become properties of the object, and the later ones replace the earlier. -/
def HeapObject.declare (o : HeapObject) (codes : List Source.Function) (ids : List ObjectId) :
    HeapObject :=
  (codes.zip ids).foldl (fun o p => o.put (p.1.name.getD "") (.object p.2)) o

namespace Heap

def hoist (g : GlobalScope) : List Source.Function → Step Unit
  | [] => pure ()
  | code :: rest => do
      let id ← allocate ⟨.function code g.scope, []⟩
      setProperty g.object (code.name.getD "") (.object id)
      hoist g rest

/-- There is a new object for each function, and nothing else is different but the global object. -/
structure Hoisted (h : Heap) (g : GlobalScope) (codes : List Source.Function)
    (ids : List ObjectId) (h' : Heap) : Prop where
  sound : h'.Sound
  fresh : ∀ id ∈ ids, h.find? id = none
  nodup : ids.Nodup
  made : List.Forall₂ (fun code id => h'.find? id = some ⟨.function code g.scope, []⟩) codes ids
  global : h'.find? g.object = (h.find? g.object).map fun o => o.declare codes ids
  elsewhere : ∀ id, id ∉ ids → id ≠ g.object → h'.find? id = h.find? id

variable {h h' h'' : Heap} {g : GlobalScope} {code : Source.Function}
  {codes : List Source.Function} {id : ObjectId} {ids : List ObjectId} {o : HeapObject}

theorem Hoisted.isLive (hh : h.Hoisted g codes ids h') (hid : h.isLive id = true) :
    h'.isLive id = true := by
  obtain ⟨o, ho⟩ := isLive_iff.1 hid
  by_cases hglobal : id = g.object
  · subst hglobal
    rw [Heap.isLive, hh.global, ho]
    rfl
  · have hold : id ∉ ids := by
      intro hmem
      cases (hh.fresh id hmem).symm.trans ho
    rw [Heap.isLive, hh.elsewhere id hold hglobal, ho]
    rfl

theorem Hoisted.none (hs : h.Sound) : h.Hoisted g [] [] h :=
  ⟨hs, fun _ hid => absurd hid List.not_mem_nil, .nil, .nil, Option.map_id'.symm, fun _ _ _ => rfl⟩

theorem Hoisted.cons (hg : h.find? g.object = some o)
    (hplaced : h.Placed ⟨.function code g.scope, []⟩ id h')
    (hchanged : h'.Changed g.object (o.put (code.name.getD "") (.object id)) h'')
    {last : Heap} (hrest : h''.Hoisted g codes ids last) :
    h.Hoisted g (code :: codes) (id :: ids) last := by
  have hne : id ≠ g.object := by
    rintro rfl
    exact nomatch hplaced.stale.symm.trans hg
  have hnew : h''.find? id = some ⟨.function code g.scope, []⟩ :=
    (hchanged.elsewhere id hne).trans hplaced.here
  have hlater : id ∉ ids := fun hid => nomatch (hrest.fresh id hid).symm.trans hnew
  have helsewhere : ∀ other, other ≠ id → other ≠ g.object → h''.find? other = h.find? other :=
    fun other hother hglobal =>
      (hchanged.elsewhere other hglobal).trans (hplaced.elsewhere other hother)
  refine ⟨hrest.sound, ?_, hrest.nodup.cons hlater, ?_, ?_, ?_⟩
  · intro other hother
    rcases List.mem_cons.1 hother with rfl | hother
    · exact hplaced.stale
    · have hfresh := hrest.fresh other hother
      have hglobal : other ≠ g.object := by
        rintro rfl
        exact nomatch hfresh.symm.trans hchanged.here
      have hfirst : other ≠ id := fun heq => hlater (heq ▸ hother)
      exact (helsewhere other hfirst hglobal).symm.trans hfresh
  · exact .cons ((hrest.elsewhere id hlater hne).trans hnew) hrest.made
  · rw [hrest.global, hchanged.here, hg]
    rfl
  · intro other hother hglobal
    obtain ⟨hfirst, hothers⟩ := not_or.1 (mt List.mem_cons.2 hother)
    exact (hrest.elsewhere other hothers hglobal).trans (helsewhere other hfirst hglobal)

theorem Sound.hoist_cases (hs : h.Sound) (hg : h.isLive g.object = true)
    (codes : List Source.Function) :
    (∃ h', hoist g codes h = .error .memoryLimit h') ∨
      ∃ ids h', hoist g codes h = .ok () h' ∧ h.Hoisted g codes ids h' := by
  induction codes generalizing h with
  | nil => exact .inr ⟨[], h, rfl, .none hs⟩
  | cons code codes ih =>
      obtain ⟨o, ho⟩ := isLive_iff.1 hg
      simp only [hoist, Bind.bind, EStateM.bind]
      rcases hs.allocate_cases ⟨.function code g.scope, []⟩ with hno | ⟨id, h₁, hok, hplaced, -⟩
      · exact .inl ⟨h, by rw [hno]⟩
      have ho₁ : h₁.find? g.object = some o := by
        refine (hplaced.elsewhere g.object ?_).trans ho
        rintro rfl
        exact nomatch hplaced.stale.symm.trans ho
      rw [hok]
      dsimp only
      rcases hplaced.sound.step_cases ho₁ (.property (code.name.getD "") (.object id)) with
        hno | ⟨h₂, hok, hchanged, -⟩
      · exact .inl ⟨h₁, by rw [show setProperty _ _ _ h₁ = _ from hno]⟩
      rw [show setProperty _ _ _ h₁ = _ from hok]
      dsimp only
      rcases ih hchanged.sound (isLive_iff.2 ⟨_, hchanged.here⟩) with ⟨h₃, hno⟩ | ⟨ids, h₃, hok, hrest⟩
      · exact .inl ⟨h₃, hno⟩
      · exact .inr ⟨id :: ids, h₃, hok, .cons ho hplaced hchanged hrest⟩

end Heap

/-! ## At the global scope -/

theorem Scopes.variableScope_global {s : Scopes} {id : ScopeId}
    (hkind : s.kind? id = some .global) : s.variableScope id = id := by
  obtain ⟨scope, hscope, hglobal⟩ := Option.map_eq_some_iff.1 hkind
  unfold variableScope
  rw [innermost?_eq, hscope, Option.bind_some, hglobal]
  rfl

namespace Run

variable {s : Setting} {m : Machine}

theorem declareVariable_global (hkind : m.scopes.kind? s.globalScope = some .global)
    (this : Value) (name : String) (value : Value) :
    declareVariable ⟨s.globalScope, this⟩ name (some value) s m =
      onHeap (Heap.setProperty s.globalObject name value) s m := by
  unfold declareVariable
  rw [bind_ok (rfl : scopes s m = .ok m.scopes m)]
  dsimp only
  rw [Scopes.variableScope_global hkind, if_pos hkind]
  rfl

/-- What a program declares goes to the global object. -/
theorem hoist_global (hkind : m.scopes.kind? s.globalScope = some .global) (this : Value)
    (body : List Source.Stmt) :
    Evaluator.hoist ⟨s.globalScope, this⟩ body s m =
      onHeap (Heap.hoist ⟨s.globalObject, s.globalScope⟩ (Source.declared body)) s m := by
  induction body generalizing m with
  | nil => rfl
  | cons first rest ih =>
      obtain ⟨line, kind⟩ := first
      cases kind with
      | function code =>
          have hdeclared : Source.declared (.mk line (.function code) :: rest) =
              code :: Source.declared rest := rfl
          rw [hdeclared, Heap.hoist, onHeap_bind, Evaluator.hoist, makeFunction]
          simp only [bind_assoc, pure_bind, onHeap_bind]
          cases hmade : Heap.allocate ⟨.function code s.globalScope, []⟩ m.heap with
          | error => rw [bind_error (onHeap_error hmade s), bind_error (onHeap_error hmade s)]
          | ok id h =>
              rw [bind_ok (onHeap_ok hmade s), bind_ok (onHeap_ok hmade s)]
              have hset := declareVariable_global (m := { m with heap := h }) hkind this
                (code.name.getD "") (.object id)
              cases hput : Heap.setProperty s.globalObject (code.name.getD "") (.object id) h with
              | error =>
                  have hstop := onHeap_error (m := { m with heap := h }) hput s
                  rw [bind_error (hset.trans hstop), bind_error hstop]
              | ok _ h' =>
                  have hnext := onHeap_ok (m := { m with heap := h }) hput s
                  rw [bind_ok (hset.trans hnext), bind_ok hnext]
                  exact ih hkind
      | _ => exact ih hkind

end Run

end ScriptHost

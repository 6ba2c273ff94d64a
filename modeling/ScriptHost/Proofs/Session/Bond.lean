import ScriptHost.Proofs.Coupling.Programs
import ScriptHost.Proofs.Session.Paired

/-!
Runs over two heaps whose objects stand for each other. What else is to hold of the two heaps is
left open, so that the runs are gone through once.
-/

namespace ScriptHost

/-- Which objects and scopes stand for each other now, and which objects ever did. -/
structure Renaming where
  objects : ObjectId → ObjectId → Prop
  scopes : ScopeId → Prop
  ever : ObjectId → ObjectId → Prop
  collections : Nat
  unique : Relator.BiUnique objects
  known : ∀ a b, objects a b → ever a b

namespace Renaming

variable {u v w : Renaming}

def blank : Renaming where
  objects := Unrelated
  scopes _ := False
  ever := Unrelated
  collections := 0
  unique := ⟨fun _ _ _ h => h.elim, fun _ _ _ h => h.elim⟩
  known _ _ := id

structure Later (v w : Renaming) : Prop where
  objects : ∀ a b, v.objects a b → w.objects a b
  scopes : ∀ i, v.scopes i → w.scopes i
  ever : ∀ a b, v.ever a b → w.ever a b
  collections : w.collections = v.collections

theorem Later.refl (w : Renaming) : w.Later w :=
  ⟨fun _ _ => id, fun _ => id, fun _ _ => id, rfl⟩

theorem Later.trans (h : u.Later v) (h' : v.Later w) : u.Later w :=
  ⟨fun a b hab => h'.objects a b (h.objects a b hab), fun i hi => h'.scopes i (h.scopes i hi),
    fun a b hab => h'.ever a b (h.ever a b hab), h'.collections.trans h.collections⟩

/-- A renaming after at most so many collections, at which objects may have gone. -/
structure After (n : Nat) (v w : Renaming) : Prop where
  ever : ∀ a b, v.ever a b → w.ever a b
  collections : w.collections ≤ v.collections + n

theorem After.refl (w : Renaming) : w.After 0 w :=
  ⟨fun _ _ => id, Nat.le_refl _⟩

theorem After.trans {n k : Nat} (h : u.After n v) (h' : v.After k w) : u.After (n + k) w :=
  ⟨fun a b hab => h'.ever a b (h.ever a b hab),
    Nat.le_trans h'.collections (Nat.add_assoc _ n k ▸ Nat.add_le_add_right h.collections k)⟩

theorem Later.after (h : v.Later w) : v.After 0 w :=
  ⟨h.ever, Nat.le_of_eq h.collections⟩

theorem After.mono {n k : Nat} (h : v.After n w) (hn : n ≤ k) : v.After k w :=
  ⟨h.ever, Nat.le_trans h.collections (Nat.add_le_add_left hn _)⟩

def withScope (w : Renaming) (i : ScopeId) : Renaming :=
  { w with scopes := fun j => w.scopes j ∨ j = i }

theorem later_withScope (w : Renaming) (i : ScopeId) : w.Later (w.withScope i) :=
  ⟨fun _ _ => id, fun _ => .inl, fun _ _ => id, rfl⟩

def withPair (w : Renaming) (a b : ObjectId) (ha : ∀ d, ¬ w.objects a d)
    (hb : ∀ c, ¬ w.objects c b) : Renaming :=
  { w with
    objects := AndPair w.objects a b
    ever := AndPair w.ever a b
    unique := biUnique_andPair w.unique ha hb
    known := fun c d => Or.imp_left (w.known c d) }

theorem later_withPair (w : Renaming) {a b : ObjectId} (ha : ∀ d, ¬ w.objects a d)
    (hb : ∀ c, ¬ w.objects c b) : w.Later (w.withPair a b ha hb) :=
  ⟨fun _ _ => .inl, fun _ => id, fun _ _ => .inl, rfl⟩

def restrict (w : Renaming) {S : ObjectId → ObjectId → Prop} (Q : ScopeId → Prop)
    (hS : ∀ a b, S a b → w.objects a b) (n : Nat) : Renaming where
  objects := S
  scopes := Q
  ever := w.ever
  collections := w.collections + n
  unique := biUnique_mono w.unique hS
  known a b hab := w.known a b (hS a b hab)

theorem after_restrict (w : Renaming) {S : ObjectId → ObjectId → Prop} (Q : ScopeId → Prop)
    (hS : ∀ a b, S a b → w.objects a b) (n : Nat) : w.After n (w.restrict Q hS n) :=
  ⟨fun _ _ => id, Nat.le_refl _⟩

end Renaming

/--
What holds of two heaps all along. A lenient bond may break when one of the budgets is exhausted.
-/
structure Bond where
  Lenient : Prop
  Holds : Renaming → Heap → Heap → Prop
  paired : ∀ {w h h'}, Holds w h h' → h.Paired w.objects w.scopes h'
  withScope : ∀ {w h h'} i, Holds w h h' → Holds (w.withScope i) h h'
  reckon : ∀ {w h h'} (f : Nat → Nat), Holds w h h' →
    Holds w { h with used := f h.used } { h' with used := f h'.used }
  refuses : ∀ {w h h'}, Holds w h h' →
    Lenient ∨ ∀ grow release, h.Refuses grow release ↔ h'.Refuses grow release
  update : ∀ {w h h' a b f g}, Holds w h h' → w.objects a b →
    (∀ o o', HeapObject.Matches w.objects w.scopes o o' →
      HeapObject.Matches w.objects w.scopes (f o) (g o')) →
    Holds w (h.update a f) (h'.update b g)
  place : ∀ {w h h' o o'} baseline, Holds w h h' →
    HeapObject.Matches w.objects w.scopes o o' →
    ∃ ha hb, Holds (w.withPair (h.place o baseline).1 (h'.place o' baseline).1 ha hb)
      (h.place o baseline).2 (h'.place o' baseline).2
  collect : ∀ {w h h' s s' roots roots' scopes}, Holds w h h' →
    s.Paired w.objects w.scopes s' → List.Forall₂ (Value.Matches w.objects) roots roots' →
    (∀ i ∈ scopes, w.scopes i) →
    ∃ v, w.After 1 v ∧ Holds v (h.tidied s roots scopes) (h'.tidied s' roots' scopes) ∧
      s.Paired v.objects v.scopes s' ∧ List.Forall₂ (Value.Matches v.objects) roots roots' ∧
      ∀ i ∈ scopes, v.scopes i

namespace Bond

variable (B : Bond)

/-- Two machines over bonded heaps, apart from what they keep for the computation under way. -/
structure Core (w : Renaming) (m m' : Machine) : Prop where
  heap : B.Holds w m.heap m'.heap
  scopes : m.scopes.Paired w.objects w.scopes m'.scopes
  pending : Option.Rel (Value.Matches w.objects) m.pending m'.pending
  host : m.host = m'.host
  polls : m.polls = m'.polls
  nesting : m.nesting = m'.nesting

def OutOfMemory (p : Option (Abrupt × Machine)) : Prop :=
  ∃ m, p = some (.terminated .memoryLimit, m)

/-- Both runs are over in the same way, or memory has run out in one of them. -/
def Over (w : Renaming) (p q : Option (Abrupt × Machine)) : Prop :=
  (B.Lenient ∧ (OutOfMemory p ∨ OutOfMemory q)) ∨
    ∃ e m m', p = some (e, m) ∧ q = some (e, m') ∧ B.Core w m m'

variable {B} {w : Renaming} {p q p' q' : Option (Abrupt × Machine)}

theorem OutOfMemory.grow (h : OutOfMemory p) (hp : p = none ∨ p' = p) : OutOfMemory p' := by
  obtain ⟨m, rfl⟩ := h
  rcases hp with hp | rfl
  · exact nomatch hp
  · exact ⟨m, rfl⟩

theorem OutOfMemory.map (f : Machine → Machine) (h : OutOfMemory p) :
    OutOfMemory (p.map (Prod.map id f)) := by
  obtain ⟨m, rfl⟩ := h
  exact ⟨f m, rfl⟩

theorem Over.grow (h : B.Over w p q) (hp : p = none ∨ p' = p) (hq : q = none ∨ q' = q) :
    B.Over w p' q' := by
  rcases h with ⟨hl, h | h⟩ | ⟨e, m, m', rfl, rfl, hcore⟩
  · exact .inl ⟨hl, .inl (h.grow hp)⟩
  · exact .inl ⟨hl, .inr (h.grow hq)⟩
  · rcases hp with hp | rfl
    · cases hp
    · rcases hq with hq | rfl
      · cases hq
      · exact .inr ⟨e, m, m', rfl, rfl, hcore⟩

theorem Over.map {f g : Machine → Machine} (h : B.Over w p q)
    (hfg : ∀ m m', B.Core w m m' → B.Core w (f m) (g m')) :
    B.Over w (p.map (Prod.map id f)) (q.map (Prod.map id g)) := by
  rcases h with ⟨hl, h | h⟩ | ⟨e, m, m', rfl, rfl, hcore⟩
  · exact .inl ⟨hl, .inl (h.map f)⟩
  · exact .inl ⟨hl, .inr (h.map g)⟩
  · exact .inr ⟨e, f m, g m', rfl, rfl, hfg m m' hcore⟩

theorem Core.withBooks {m m' : Machine} (b b' : Machine.Books) (h : B.Core w m m') :
    B.Core w (m.withBooks b) (m'.withBooks b') :=
  ⟨h.heap, h.scopes, h.pending, h.host, h.polls, h.nesting⟩

variable (B)

def coupling : Coupling where
  Stage := Renaming
  Later := Renaming.Later
  Named w := w.objects
  Opened w := w.scopes
  State w m m' := B.Core w m m' ∧ m.books.Matches w.objects m'.books
  Over := B.Over
  refl := .refl
  trans := .trans
  named h := h.objects
  opened h := h.scopes
  unique w := w.unique
  heap h := (B.paired h.1.heap).toMatches
  scopes h := h.1.scopes.toMatches
  books h := h.2
  still h hb := ⟨h.1.withBooks _ _, hb⟩
  over_grow h := h.grow
  over_still b b' h := h.map fun _ _ hcore => hcore.withBooks b b'

/-! ## Steps -/

variable {B} {s s' : Setting} {v : Renaming} {m m' : Machine} {k k' : Heap}

theorem pending_mono {x y : Option Value} (h : Option.Rel (Value.Matches w.objects) x y)
    (hl : w.Later v) : Option.Rel (Value.Matches v.objects) x y := by
  cases h with
  | none => exact .none
  | some hab => exact .some (hab.mono hl.objects)

theorem Core.withHeap (h : B.Core w m m') (hk : B.Holds w k k') :
    B.Core w { m with heap := k } { m' with heap := k' } :=
  ⟨hk, h.scopes, h.pending, h.host, h.polls, h.nesting⟩

theorem books_mono {b b' : Machine.Books} (h : b.Matches w.objects b') (hl : w.Later v) :
    b.Matches v.objects b' :=
  ⟨h.completion.mono hl.objects, h.line, h.throwLine, h.calls, h.unchecked⟩

theorem follows_modify {f g : Heap → Heap}
    (hfg : ∀ v h h', w.Later v → B.Holds v h h' → B.Holds v (f h) (g h')) :
    B.coupling.Follows s s' w B.coupling.Same (Run.onHeap (modify f)) (Run.onHeap (modify g)) :=
  fun v hv m m' hst =>
    .ok (.refl v) ⟨hst.1.withHeap (hfg v m.heap m'.heap hv hst.1.heap), hst.2⟩ rfl

theorem follows_charge (grow release : Nat) :
    B.coupling.Follows s s' w B.coupling.Same (Run.onHeap (Heap.charge grow release))
      (Run.onHeap (Heap.charge grow release)) := by
  rintro v - m m' ⟨hcore, hbooks⟩
  have hgone (n : Machine) : OutOfMemory (some (.terminated .memoryLimit, n)) := ⟨n, rfl⟩
  by_cases hleft : m.heap.Refuses grow release
  · rw [Run.onHeap_charge_refused hleft]
    refine .final (.refl v) ?_
    rcases B.refuses hcore.heap with hl | hiff
    · exact .inl ⟨hl, .inl (hgone _)⟩
    · rw [Run.onHeap_charge_refused ((hiff grow release).1 hleft)]
      exact .inr ⟨_, _, _, rfl, rfl, hcore.heap, hcore.scopes, hcore.pending, hcore.host,
        hcore.polls, hcore.nesting⟩
  · by_cases hright : m'.heap.Refuses grow release
    · rw [Run.onHeap_charge_refused hright]
      rcases B.refuses hcore.heap with hl | hiff
      · exact .final (.refl v) (.inl ⟨hl, .inr (hgone _)⟩)
      · exact absurd ((hiff grow release).2 hright) hleft
    · rw [Run.onHeap_charge_allowed hleft, Run.onHeap_charge_allowed hright]
      exact .ok (.refl v)
        ⟨hcore.withHeap (B.reckon (fun used => used + grow - release) hcore.heap), hbooks⟩ rfl

theorem follows_place {o o' : HeapObject} (baseline : Nat) (ho : o.Matches w.objects w.scopes o') :
    B.coupling.Follows s s' w B.coupling.Named (Run.onHeap (modifyGet fun h => h.place o baseline))
      (Run.onHeap (modifyGet fun h => h.place o' baseline)) := by
  rintro v hv m m' ⟨hcore, hbooks⟩
  obtain ⟨ha, hb, hholds⟩ := B.place baseline hcore.heap (ho.mono hv.objects hv.scopes)
  have hl := v.later_withPair ha hb
  exact .ok hl ⟨⟨hholds, hcore.scopes.mono hl.objects, pending_mono hcore.pending hl, hcore.host,
    hcore.polls, hcore.nesting⟩, books_mono hbooks hl⟩ (.inr ⟨rfl, rfl⟩)

theorem follows_openChild (kind : ScopeKind) {i : ScopeId} (hi : w.scopes i) :
    B.coupling.Follows s s' w (fun v i j => i = j ∧ B.coupling.Opened v i)
      (Run.onScopes fun scopes => scopes.openChild kind i)
      (Run.onScopes fun scopes => scopes.openChild kind i) := by
  rintro v hv m m' ⟨hcore, hbooks⟩
  have hl := v.later_withScope m.scopes.size
  exact .ok hl ⟨⟨B.withScope _ hcore.heap, hcore.scopes.openChild kind (hv.scopes i hi),
    hcore.pending, hcore.host, hcore.polls, hcore.nesting⟩, hbooks⟩
    ⟨hcore.scopes.size, .inr rfl⟩

theorem follows_openGlobal :
    B.coupling.Follows s s' w (fun v i j => i = j ∧ B.coupling.Opened v i)
      (Run.onScopes Scopes.openGlobal) (Run.onScopes Scopes.openGlobal) := by
  rintro v - m m' ⟨hcore, hbooks⟩
  have hl := v.later_withScope m.scopes.size
  exact .ok hl ⟨⟨B.withScope _ hcore.heap, hcore.scopes.openGlobal, hcore.pending, hcore.host,
    hcore.polls, hcore.nesting⟩, hbooks⟩ ⟨hcore.scopes.size, .inr rfl⟩

theorem follows_bind (i : ScopeId) (name : String) {b b' : Binding} (hb : b.Matches w.objects b') :
    B.coupling.Follows s s' w B.coupling.Same (Run.bind i name b) (Run.bind i name b') := by
  rintro v hv m m' ⟨hcore, hbooks⟩
  have hb' : b.Matches v.objects b' := ⟨hb.value.mono hv.objects, hb.isMutable⟩
  exact .ok (.refl v) ⟨⟨hcore.heap, hcore.scopes.bind i name hb', hcore.pending, hcore.host,
    hcore.polls, hcore.nesting⟩, hbooks⟩ rfl

theorem follows_host (f : Host → Host) :
    B.coupling.Follows s s' w B.coupling.Same (Run.onHost f) (Run.onHost f) := by
  rintro v - m m' ⟨hcore, hbooks⟩
  exact .ok (.refl v) ⟨⟨hcore.heap, hcore.scopes, hcore.pending, congrArg f hcore.host,
    hcore.polls, hcore.nesting⟩, hbooks⟩ rfl

theorem follows_record (port : Nat) {a b : Value} {vs vs' : List Value} :
    B.coupling.Follows s s' w B.coupling.Same (Run.record a (.portPostMessage port) vs)
      (Run.record b (.portPostMessage port) vs') := by
  rintro v - m m' ⟨hcore, hbooks⟩
  exact .ok (.refl v) ⟨⟨hcore.heap, hcore.scopes, hcore.pending, hcore.host, hcore.polls,
    hcore.nesting⟩, hbooks⟩ rfl

theorem follows_safePoint (hanswer : s.answer = s'.answer) (hhorizon : s.horizon = s'.horizon) :
    B.coupling.Follows s s' w B.coupling.Same Run.safePoint Run.safePoint := by
  rintro v - m m' ⟨hcore, hbooks⟩
  unfold Run.safePoint
  rw [← hanswer, ← hhorizon, ← hcore.polls, ← hcore.host]
  split
  · exact .final (.refl v) (.inr ⟨_, m, m', rfl, rfl, hcore⟩)
  · cases s.answer m.polls m.host.logged with
    | some reason =>
      exact .final (.refl v) (.inr ⟨_, _, _, rfl, rfl, hcore.heap, hcore.scopes, hcore.pending, rfl,
        rfl, hcore.nesting⟩)
    | none =>
      have hpending := hcore.pending
      dsimp only
      generalize m.pending = x, m'.pending = y at hpending ⊢
      cases hpending with
      | none =>
        exact .ok (.refl v) ⟨⟨hcore.heap, hcore.scopes, .none, rfl, rfl, hcore.nesting⟩, hbooks⟩ rfl
      | some hab =>
        exact .abrupt (.refl v) ⟨⟨hcore.heap, hcore.scopes, .none, rfl, rfl,
          hcore.nesting⟩, hbooks.completion, hbooks.line, hbooks.line, hbooks.calls,
          hbooks.unchecked⟩ (.thrown hab)

theorem elementary (hdepth : s.maxCallDepth = s'.maxCallDepth) (hanswer : s.answer = s'.answer)
    (hhorizon : s.horizon = s'.horizon) : B.coupling.Elementary s s' where
  callDepth := hdepth
  charge _ := follows_charge
  update _ a b _ _ hab hfg := follows_modify fun v _ _ hv hholds =>
    B.update hholds (hv.objects a b hab) (hfg v hv)
  release _ n := follows_modify fun _ _ _ _ hholds => B.reckon (fun used => used - n) hholds
  place _ _ _ baseline ho := follows_place baseline ho
  openChild _ kind _ hi := follows_openChild kind hi
  bind _ i name _ _ _ hb := follows_bind i name hb
  host _ := follows_host
  record port _ _ := follows_record port
  safePoint _ := follows_safePoint hanswer hhorizon
  repeatWhile _ _ _ h := h.repeatWhile hhorizon (fun _ _ _ hst => hst.1.polls)
    (fun _ m m' hst => .inr ⟨_, m, m', rfl, rfl, hst.1⟩) fun _ =>
      follows_safePoint hanswer hhorizon

theorem keeps (hdepth : s.maxCallDepth = s'.maxCallDepth) (hanswer : s.answer = s'.answer)
    (hhorizon : s.horizon = s'.horizon) : B.coupling.Keeps s s' :=
  (elementary hdepth hanswer hhorizon).keeps

theorem Core.withNesting (f : Gauge → Gauge) (h : B.Core w m m') :
    B.Core w { m with nesting := f m.nesting } { m' with nesting := f m'.nesting } :=
  ⟨h.heap, h.scopes, h.pending, h.host, h.polls, congrArg f h.nesting⟩

theorem nests (hk : B.coupling.Keeps s s') : B.coupling.Nests s s' :=
  Coupling.nests hk (fun _ _ _ hst => congrArg Gauge.level hst.1.nesting)
    (fun _ _ _ hst => ⟨hst.1.withNesting Gauge.enter, hst.2⟩)
    (fun _ _ _ hst => ⟨hst.1.withNesting Gauge.leave, hst.2⟩)
    fun _ _ _ h => h.map fun _ _ hcore => hcore.withNesting Gauge.leave

end Bond

end ScriptHost

import ScriptHost.Proofs.Heap.Lengths

/-!
Strings within a limit while a script runs. Texts and documents that nobody checks are on record, so
the limit is kept for as long as what is on record keeps it.
-/

namespace ScriptHost

/-! ## Scopes -/

namespace Scopes

variable {n : Nat} {s : Scopes}

def Fits (n : Nat) (s : Scopes) : Prop :=
  ∀ scope ∈ s.entries, ∀ p ∈ scope.bindings, p.2.value.Fits n

theorem Fits.openChild (hs : s.Fits n) (kind : ScopeKind) (around : ScopeId) :
    (s.openChild kind around).2.Fits n := by
  intro scope hscope
  rcases Array.mem_push.1 hscope with hscope | rfl
  · exact hs scope hscope
  · exact List.forall_mem_nil _

theorem Fits.bind (hs : s.Fits n) (id : ScopeId) (name : String) {b : Binding}
    (hb : b.value.Fits n) : (s.bind id name b).Fits n := by
  intro scope hscope p hp
  obtain ⟨i, hi⟩ := Array.mem_iff_getElem?.1 hscope
  have hi : (s.entries.modify id fun scope =>
      { scope with bindings := scope.bindings.put name b })[i]? = some scope := hi
  rw [Array.getElem?_modify] at hi
  split at hi
  · obtain ⟨old, hold, rfl⟩ := Option.map_eq_some_iff.1 hi
    rcases Table.mem_put hp with heq | hp
    · exact heq ▸ hb
    · exact hs old (Array.mem_of_getElem? hold) p hp
  · exact hs scope (Array.mem_of_getElem? hi) p hp

theorem mem_of_innermost? {α : Type} {f : Scope → Option α} {id i : ScopeId} {a : α}
    (h : s.innermost? f id = some (i, a)) : ∃ scope ∈ s.entries, f scope = some a := by
  induction id using Nat.strongRecOn with
  | ind id ih =>
    rw [innermost?_eq] at h
    obtain ⟨scope, hscope, h⟩ := Option.bind_eq_some_iff.1 h
    cases hf : f scope with
    | some b =>
        rw [hf] at h
        obtain ⟨-, rfl⟩ := Prod.mk.inj (Option.some.inj h)
        exact ⟨scope, Array.mem_of_getElem? hscope, hf⟩
    | none =>
        rw [hf] at h
        obtain ⟨parent, hparent, h⟩ := Option.bind_eq_some_iff.1 h
        exact ih parent (s.parent_lt hscope hparent) h

theorem Fits.lookup? (hs : s.Fits n) {name : String} {id : ScopeId} {v : Value}
    (hv : s.lookup? name id = some v) : v.Fits n := by
  obtain ⟨⟨i, b⟩, hb, rfl⟩ := Option.map_eq_some_iff.1 hv
  obtain ⟨scope, hscope, hget⟩ := mem_of_innermost? hb
  exact hs scope hscope _ (Table.mem_of_get? hget)

end Scopes

/-! ## Machines -/

def Abrupt.Fits (n : Nat) : Abrupt → Prop
  | .thrown value => value.Fits n
  | .returned value => value.Fits n
  | _ => True

namespace Machine

structure Fits (n : Nat) (m : Machine) : Prop where
  heap : m.heap.Fits n
  scopes : m.scopes.Fits n
  pending : ∀ v ∈ m.pending, v.Fits n
  completion : m.completion.Fits n

/-- What went unchecked kept to the limit all the same. -/
def Modest (n : Nat) (m : Machine) : Prop :=
  ∀ json ∈ m.unchecked, json.Fits n

end Machine

namespace Run

variable {α β : Type} {n : Nat} {pre pre' : Prop} {Q Q' : α → Prop} {R : β → Prop}

def Fits (n : Nat) (Q : α → Prop) : EStateM.Result Abrupt Machine α → Prop
  | .ok a m => m.Fits n ∧ Q a
  | .error e m => m.Fits n ∧ e.Fits n

def Ending (n : Nat) (Q : α → Prop) : Except Abrupt α → Prop
  | .ok a => Q a
  | .error e => e.Fits n

/--
The record only grows, and a computation keeps to the limit if all on record does at its end. What
has to hold of the values it starts with stands apart, as the record grows whether it holds or not.
-/
def Holds (n : Nat) (pre : Prop) (x : Run α) (Q : α → Prop) : Prop :=
  ∀ s m, m.unchecked <:+ (left (x s m)).unchecked ∧
    (pre → m.Fits n → (left (x s m)).Modest n → Fits n Q (x s m))

namespace Holds

theorem under (hx : Holds n pre x Q) (h : pre' → pre) : Holds n pre' x Q :=
  fun s m => ⟨(hx s m).1, fun hpre => (hx s m).2 (h hpre)⟩

theorem pure {a : α} (ha : pre → Q a) : Holds n pre (pure a) Q :=
  fun _ m => ⟨List.suffix_refl m.unchecked, fun hpre hm _ => ⟨hm, ha hpre⟩⟩

theorem skip : Holds n pre (Pure.pure ()) fun _ => True :=
  pure fun _ => trivial

theorem error {e : Abrupt} (he : pre → e.Fits n) : Holds n pre (throw e) Q :=
  fun _ m => ⟨List.suffix_refl m.unchecked, fun hpre hm _ => ⟨hm, he hpre⟩⟩

theorem bind {x : Run α} {f : α → Run β} (hx : Holds n pre x Q)
    (hf : ∀ a, Holds n (pre ∧ Q a) (f a) R) : Holds n pre (x >>= f) R := by
  intro s m
  obtain ⟨hgrown, hends⟩ := hx s m
  cases h : x s m with
  | error e k =>
      rw [h] at hgrown hends
      rw [bind_error h]
      exact ⟨hgrown, hends⟩
  | ok a k =>
      rw [h] at hgrown hends
      rw [bind_ok h]
      obtain ⟨hlater, hlast⟩ := hf a s k
      refine ⟨hgrown.trans hlater, fun hpre hm hmodest => ?_⟩
      obtain ⟨hk, ha⟩ := hends hpre hm fun json hjson => hmodest json (hlater.mem hjson)
      exact hlast ⟨hpre, ha⟩ hk hmodest

theorem map {x : Run α} {f : α → β} (hx : Holds n pre x Q) (hf : ∀ a, pre → Q a → R (f a)) :
    Holds n pre (f <$> x) R := by
  rw [map_eq_pure_bind]
  exact hx.bind fun a => .pure fun h => hf a h.1 h.2

theorem attempt (hx : Holds n pre x Q) : Holds n pre (attempt x) (Ending n Q) := by
  intro s m
  obtain ⟨hgrown, hends⟩ := hx s m
  cases h : x s m with
  | ok a k =>
      rw [h] at hgrown hends
      rw [attempt_ok h]
      exact ⟨hgrown, hends⟩
  | error e k =>
      rw [h] at hgrown hends
      rw [attempt_error h]
      exact ⟨hgrown, hends⟩

/-- A computation that begins and ends with a change to the machine. -/
theorem within {y : Run α} (enter : Machine → Machine) (leave : Machine → Machine → Machine)
    (hx : Holds n pre x Q) (hy : ∀ s m, y s m = mapState (leave m) (x s (enter m)))
    (hgrown : ∀ m, (enter m).unchecked = m.unchecked)
    (hkept : ∀ m k, (leave m k).unchecked = k.unchecked)
    (henter : ∀ m, m.Fits n → (enter m).Fits n)
    (hleave : ∀ m k, m.Fits n → k.Fits n → (leave m k).Fits n) : Holds n pre y Q := by
  intro s m
  obtain ⟨hrecord, hends⟩ := hx s (enter m)
  rw [hy, ← hgrown m]
  cases h : x s (enter m) with
  | ok a k =>
      rw [h] at hrecord hends
      have hleft : (left (mapState (leave m) (.ok a k))).unchecked = k.unchecked := hkept m k
      refine ⟨hleft ▸ hrecord, fun hpre hm hmodest => ?_⟩
      obtain ⟨hk, ha⟩ := hends hpre (henter m hm) fun json hjson => hmodest json (hleft ▸ hjson)
      exact ⟨hleave m k hm hk, ha⟩
  | error e k =>
      rw [h] at hrecord hends
      have hleft : (left (mapState (leave m) (.error e k : EStateM.Result _ _ α))).unchecked =
        k.unchecked := hkept m k
      refine ⟨hleft ▸ hrecord, fun hpre hm hmodest => ?_⟩
      obtain ⟨hk, he⟩ := hends hpre (henter m hm) fun json hjson => hmodest json (hleft ▸ hjson)
      exact ⟨hleave m k hm hk, he⟩

/-! ## Steps of the machine -/

theorem heap : Holds n pre heap (Heap.Fits n) :=
  fun _ m => ⟨List.suffix_refl m.unchecked, fun _ hm _ => ⟨hm, hm.heap⟩⟩

theorem scopes : Holds n pre scopes (Scopes.Fits n) :=
  fun _ m => ⟨List.suffix_refl m.unchecked, fun _ hm _ => ⟨hm, hm.scopes⟩⟩

theorem setting : Holds n pre setting fun _ => True :=
  fun _ m => ⟨List.suffix_refl m.unchecked, fun _ hm _ => ⟨hm, trivial⟩⟩

theorem globalThis : Holds n pre globalThis (Value.Fits n) :=
  fun _ m => ⟨List.suffix_refl m.unchecked, fun _ hm _ => ⟨hm, trivial⟩⟩

theorem completion : Holds n pre completion (Value.Fits n) :=
  fun _ m => ⟨List.suffix_refl m.unchecked, fun _ hm _ => ⟨hm, hm.completion⟩⟩

theorem onHost (f : Host → Host) : Holds n pre (onHost f) fun _ => True :=
  fun _ m => ⟨List.suffix_refl m.unchecked, fun _ hm _ =>
    ⟨⟨hm.heap, hm.scopes, hm.pending, hm.completion⟩, trivial⟩⟩

theorem setLine (line : Nat) : Holds n pre (setLine line) fun _ => True :=
  fun _ m => ⟨List.suffix_refl m.unchecked, fun _ hm _ =>
    ⟨⟨hm.heap, hm.scopes, hm.pending, hm.completion⟩, trivial⟩⟩

theorem setCompletion {v : Value} (hv : pre → v.Fits n) :
    Holds n pre (setCompletion v) fun _ => True :=
  fun _ m => ⟨List.suffix_refl m.unchecked, fun hpre hm _ =>
    ⟨⟨hm.heap, hm.scopes, hm.pending, hv hpre⟩, trivial⟩⟩

theorem onScopes {f : Scopes → α × Scopes} (hf : pre → ∀ s, s.Fits n → (f s).2.Fits n) :
    Holds n pre (onScopes f) fun _ => True :=
  fun _ m => ⟨List.suffix_refl m.unchecked, fun hpre hm _ =>
    ⟨⟨hm.heap, hf hpre m.scopes hm.scopes, hm.pending, hm.completion⟩, trivial⟩⟩

theorem onHeap {x : Heap.Step α} (hx : pre → Heap.Keeps n Q x) : Holds n pre (onHeap x) Q := by
  intro s m
  unfold Run.onHeap
  cases hstep : x m.heap with
  | ok a h =>
      refine ⟨List.suffix_refl m.unchecked, fun hpre hm _ => ?_⟩
      obtain ⟨hleft, hmade⟩ := hx hpre m.heap hm.heap
      rw [Heap.left, hstep] at hleft
      exact ⟨⟨hleft, hm.scopes, hm.pending, hm.completion⟩, hmade a h hstep⟩
  | error reason h =>
      refine ⟨List.suffix_refl m.unchecked, fun hpre hm _ => ?_⟩
      have hleft := (hx hpre m.heap hm.heap).1
      rw [Heap.left, hstep] at hleft
      exact ⟨⟨hleft, hm.scopes, hm.pending, hm.completion⟩, trivial⟩

theorem unchecked (json : Json) : Holds n pre (unchecked json) fun _ => json.Fits n :=
  fun _ m => ⟨List.suffix_cons json m.unchecked, fun _ hm hmodest =>
    ⟨⟨hm.heap, hm.scopes, hm.pending, hm.completion⟩, hmodest json List.mem_cons_self⟩⟩

theorem raise {v : Value} (hv : pre → v.Fits n) : Holds n pre (raise v) Q :=
  fun _ m => ⟨List.suffix_refl m.unchecked, fun hpre hm _ =>
    ⟨⟨hm.heap, hm.scopes, hm.pending, hm.completion⟩, hv hpre⟩⟩

theorem record (function : Value) (native : Native) (args : List Value) :
    Holds n pre (record function native args) fun _ => True := by
  cases native with
  | portPostMessage port =>
      exact fun _ m => ⟨List.suffix_refl m.unchecked, fun _ hm _ =>
        ⟨⟨hm.heap, hm.scopes, hm.pending, hm.completion⟩, trivial⟩⟩
  | _ => exact pure fun _ => trivial

theorem safePoint : Holds n pre safePoint fun _ => True := by
  intro s m
  unfold Run.safePoint
  split
  · exact ⟨List.suffix_refl _, fun _ hm _ => ⟨hm, trivial⟩⟩
  · dsimp only
    split
    · exact ⟨List.suffix_refl m.unchecked, fun _ hm _ =>
        ⟨⟨hm.heap, hm.scopes, hm.pending, hm.completion⟩, trivial⟩⟩
    · split
      · next hpending =>
        exact ⟨List.suffix_refl m.unchecked, fun _ hm _ =>
          ⟨⟨hm.heap, hm.scopes, nofun, hm.completion⟩, hm.pending _ hpending⟩⟩
      · exact ⟨List.suffix_refl m.unchecked, fun _ hm _ =>
          ⟨⟨hm.heap, hm.scopes, hm.pending, hm.completion⟩, trivial⟩⟩

theorem aside (hx : Holds n pre x Q) : Holds n pre (aside x) Q := by
  refine hx.within (fun m => { m with completion := .undefined })
    (fun m k => { k with completion := m.completion }) (fun s m => ?_) (fun _ => rfl)
    (fun _ _ => rfl) (fun _ hm => ⟨hm.heap, hm.scopes, hm.pending, trivial⟩)
    fun _ _ hm hk => ⟨hk.heap, hk.scopes, hk.pending, hm.completion⟩
  unfold Run.aside
  cases x s { m with completion := .undefined } <;> rfl

theorem inCall (hx : Holds n pre x Q) : Holds n pre (inCall x) Q := by
  refine hx.aside.within (fun m => { m with calls := m.calls.enter })
    (fun m k => { k with calls := k.calls.leave, line := m.line }) (fun s m => ?_)
    (fun _ => rfl) (fun _ _ => rfl) (fun _ hm => ⟨hm.heap, hm.scopes, hm.pending, hm.completion⟩)
    fun _ _ _ hk => ⟨hk.heap, hk.scopes, hk.pending, hk.completion⟩
  unfold Run.inCall
  cases Run.aside x s { m with calls := m.calls.enter } <;> rfl

/-! ## Complaints and texts -/

section Least

variable (hn : 64 ≤ n)

include hn

theorem complain (complaint : Complaint) : Holds n pre (complain complaint) Q := by
  refine (unchecked _).bind fun _ => ?_
  refine (onHeap fun h => ?_).bind fun error => raise And.right
  cases h.2 with
  | text hmessage =>
      exact (Heap.Keeps.allocate (Heap.fits_errorObject hn hmessage)).map fun _ _ => trivial

theorem string (text : String) : Holds n pre (string text) (Value.Fits n) := by
  refine heap.bind fun h => ?_
  split
  · exact complain hn .stringLength
  · next hlong => exact pure fun hpre => Nat.le_trans (Nat.le_of_not_lt hlong) hpre.2.limit

theorem nested (hx : Holds n pre x Q) : Holds n pre (nested x) Q := by
  have hbelow : Holds n pre (fun s m => mapState
      (fun k => { k with nesting := k.nesting.leave }) (x s { m with nesting := m.nesting.enter }))
      Q :=
    hx.within _ (fun _ k => { k with nesting := k.nesting.leave }) (fun _ _ => rfl) (fun _ => rfl)
      (fun _ _ => rfl) (fun _ hm => ⟨hm.heap, hm.scopes, hm.pending, hm.completion⟩)
      fun _ _ _ hk => ⟨hk.heap, hk.scopes, hk.pending, hk.completion⟩
  intro s m
  by_cases hlimit : nestingLimit ≤ m.nesting.level
  · rw [Run.nested, if_pos hlimit]
    exact complain hn .stackOverflow s m
  · rw [nested_below x s hlimit]
    exact hbelow s m

theorem checkCallDepth : Holds n pre checkCallDepth fun _ => True := by
  intro s m
  unfold Run.checkCallDepth
  split
  · exact complain hn .stackOverflow s m
  · exact ⟨List.suffix_refl m.unchecked, fun _ hm _ => ⟨hm, trivial⟩⟩

end Least

theorem repeatFor {round : Run Bool} (hround : Holds n pre round fun _ => True) (rounds : Nat) :
    Holds n pre (repeatFor round rounds) fun _ => True := by
  induction rounds with
  | zero => exact error fun _ => trivial
  | succ rounds ih =>
      refine hround.bind fun goesOn => ?_
      split
      · exact ih.under And.left
      · exact pure fun _ => trivial

theorem repeatWhile {round : Run Bool} (hround : Holds n pre round fun _ => True) :
    Holds n pre (repeatWhile round) fun _ => True := fun s m =>
  (safePoint.bind fun _ => hround.under And.left).repeatFor (s.horizon - m.polls + 1) s m

end Holds

/-! ## Operators and built-ins -/

section Builtins

variable (hn : 64 ≤ n)

include hn

theorem holds_add (left right : Value) : Holds n pre (add left right) (Value.Fits n) := by
  refine Holds.heap.bind fun h => ?_
  dsimp only
  split
  · split
    · exact .complain hn .stringLength
    · next hlong =>
      refine .pure fun hpre => ?_
      rw [Value.Fits, String.utf8ByteSize_append]
      exact Nat.le_trans (Nat.le_of_not_lt hlong) hpre.2.limit
  · exact .pure fun _ => trivial

theorem holds_binary (op : Source.BinaryOp) (left right : Value) :
    Holds n pre (binary op left right) (Value.Fits n) := by
  refine Holds.heap.bind fun h => ?_
  cases op with
  | add => exact holds_add hn left right
  | _ => exact .pure fun _ => trivial

theorem holds_getProperty (base : Value) (key : String) :
    Holds n pre (getProperty base key) (Value.Fits n) := by
  refine Holds.heap.bind fun h => ?_
  split
  · next hvalue => exact .pure fun hpre => hpre.2.property? hn hvalue
  · exact .complain hn _

theorem holds_setProperty (base : Value) (key : String) {value : Value} (hv : pre → value.Fits n) :
    Holds n pre (setProperty base key value) fun _ => True := by
  cases base with
  | object id =>
      refine (Holds.onHeap fun h => Heap.Keeps.writeProperty id key (hv h)).bind fun done => ?_
      split
      · exact .pure fun _ => trivial
      · exact .complain hn _
  | undefined | null => exact Holds.heap.bind fun h => .complain hn _
  | bool | number | string => exact .pure fun _ => trivial

theorem holds_callArrayMethod (id : ObjectId) (method : ArrayMethod) {args : List Value}
    (hargs : pre → ∀ v ∈ args, v.Fits n) :
    Holds n pre (callArrayMethod id method args) (Value.Fits n) := by
  cases method with
  | push =>
      refine (Holds.onHeap fun h => Heap.Keeps.pushElements (hargs h)).bind fun size => ?_
      exact .pure fun _ => trivial
  | pop => exact .onHeap fun _ => .popElement id
  | join => exact Holds.heap.bind fun h => .string hn _

theorem holds_cloneMessage (value : Value) :
    Holds n pre (cloneMessage value) fun _ => True := by
  refine Holds.heap.bind fun h => ?_
  split
  · exact .pure fun _ => trivial
  · exact .complain hn _

theorem holds_callNative (function : Native) (args : List Value) :
    Holds n pre (callNative function args) (Value.Fits n) := by
  cases function with
  | console level =>
      exact Holds.heap.bind fun h => (Holds.onHost _).bind fun _ => .pure fun _ => trivial
  | close => exact (Holds.onHost _).bind fun _ => .pure fun _ => trivial
  | postMessage =>
      refine (holds_cloneMessage hn _).bind fun message => ?_
      exact (Holds.onHost _).bind fun _ => .pure fun _ => trivial
  | portPostMessage port =>
      refine (holds_cloneMessage hn _).bind fun message => ?_
      exact (Holds.onHost _).bind fun _ => .pure fun _ => trivial
  | errorConstructor kind =>
      refine Holds.heap.bind fun h => (Holds.unchecked _).bind fun _ => .onHeap fun hpre => ?_
      cases hpre.2 with
      | text hmessage =>
          exact (Heap.Keeps.allocate (Heap.fits_errorObject hn hmessage)).map fun _ _ => trivial
  | jsonStringify =>
      refine Holds.heap.bind fun h => ?_
      split
      · exact .pure fun _ => trivial
      · split
        · exact .string hn _
        · exact .complain hn _
  | jsonParse =>
      refine Holds.heap.bind fun h => ?_
      split
      · exact (Holds.unchecked _).bind fun _ => .onHeap fun hpre => Heap.keeps_fromJson hpre.2
      · exact .complain hn _

end Builtins

end Run

end ScriptHost

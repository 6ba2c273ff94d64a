import ScriptHost.Proofs.Coupling.Programs

/-!
Two runs that are in the same state at every stage.
-/

namespace ScriptHost

variable {P : ScopeId → Prop}

theorem Machine.Books.Matches.eq_of_eq {b b' : Machine.Books} (h : b.Matches Eq b') : b = b' := by
  obtain ⟨completion, line, throwLine, calls, unchecked⟩ := b
  obtain ⟨completion', line', throwLine', calls', unchecked'⟩ := b'
  obtain ⟨hcompletion, rfl, rfl, rfl, rfl⟩ := h
  obtain rfl : completion = completion' := hcompletion.eq_of_eq
  rfl

theorem Abrupt.Matches.eq_of_eq {e e' : Abrupt} (h : e.Matches Eq e') : e = e' := by
  cases h with
  | thrown hv => rw [hv.eq_of_eq]
  | returned hv => rw [hv.eq_of_eq]
  | broke => rfl
  | continued => rfl

theorem Scopes.matches_refl (s : Scopes) : s.Matches Eq (fun _ => True) s := by
  intro id _
  cases s.get? id with
  | none => exact .none
  | some scope =>
    exact .some ⟨rfl, Table.matches_refl _ fun p _ => ⟨.refl_eq _, rfl⟩, rfl, fun _ _ => trivial⟩

/--
What holds at each stage of two runs in the same state. It may speak of the polls made, the
terminations on record and the nesting.
-/
structure Lockstep where
  Stage : Type
  Later : Stage → Stage → Prop
  Good : Stage → Machine → Prop
  Over : Stage → Option (Abrupt × Machine) → Option (Abrupt × Machine) → Prop
  refl : ∀ w, Later w w
  trans : ∀ {u v w}, Later u v → Later v w → Later u w
  good : ∀ {w m m'}, m'.polls = m.polls → m'.halts = m.halts → m'.nesting = m.nesting →
    Good w m → Good w m'
  over_grow : ∀ {w p q p' q'}, Over w p q → p = none ∨ p' = p → q = none ∨ q' = q → Over w p' q'
  over_still : ∀ {w p q} (b b' : Machine.Books), Over w p q →
    Over w (p.map (Prod.map id fun m => m.withBooks b))
      (q.map (Prod.map id fun m => m.withBooks b'))

namespace Lockstep

variable (L : Lockstep) {s s' : Setting} {w : L.Stage} {α : Type}

def coupling : Coupling where
  Stage := L.Stage
  Later := L.Later
  Named _ := Eq
  Opened _ _ := True
  State w m m' := m = m' ∧ L.Good w m
  Over := L.Over
  refl := L.refl
  trans := L.trans
  named _ _ _ := id
  opened _ _ := id
  unique _ := ⟨fun _ _ _ h h' => h.trans h'.symm, fun _ _ _ h h' => h.symm.trans h'⟩
  heap h := h.1 ▸ Heap.matches_refl _
  scopes h := h.1 ▸ Scopes.matches_refl _
  books h := h.1 ▸ Machine.Books.matches_refl _
  still {w m m' b b'} h hb := ⟨by rw [h.1, hb.eq_of_eq], L.good (m := m) rfl rfl rfl h.2⟩
  over_grow := L.over_grow
  over_still := L.over_still

variable {L}

/-- What comes out is the same on both sides, and nothing is polled, terminated or nested. -/
theorem steady {T : L.Stage → α → α → Prop} {x y : Run α} (a : Machine → α)
    (f : Machine → Machine) (hx : ∀ s m, x s m = .ok (a m) (f m))
    (hy : ∀ s m, y s m = .ok (a m) (f m)) (hpolls : ∀ m, (f m).polls = m.polls)
    (hhalts : ∀ m, (f m).halts = m.halts) (hnesting : ∀ m, (f m).nesting = m.nesting)
    (hT : ∀ v b, T v b b) : L.coupling.Follows s s' w T x y := by
  rintro v - m _ ⟨rfl, hgood⟩
  rw [hx, hy]
  exact .ok (L.refl v) ⟨rfl, L.good (hpolls m) (hhalts m) (hnesting m) hgood⟩ (hT v _)

theorem charge_follows
    (hlimit : ∀ w m, L.Good w m → L.Over w (some (.terminated .memoryLimit, m.halt .memoryLimit))
      (some (.terminated .memoryLimit, m.halt .memoryLimit)))
    (grow release : Nat) :
    L.coupling.Follows s s' w L.coupling.Same (Run.onHeap (Heap.charge grow release))
      (Run.onHeap (Heap.charge grow release)) := by
  rintro v - m _ ⟨rfl, hgood⟩
  by_cases hrefused : m.heap.Refuses grow release
  · rw [Run.onHeap_charge_refused hrefused, Run.onHeap_charge_refused hrefused]
    exact .final (L.refl v) (hlimit v m hgood)
  · rw [Run.onHeap_charge_allowed hrefused, Run.onHeap_charge_allowed hrefused]
    exact .ok (L.refl v) ⟨rfl, L.good (m := m) rfl rfl rfl hgood⟩ rfl

theorem elementary (hdepth : s.maxCallDepth = s'.maxCallDepth)
    (hlimit : ∀ w m, L.Good w m → L.Over w (some (.terminated .memoryLimit, m.halt .memoryLimit))
      (some (.terminated .memoryLimit, m.halt .memoryLimit)))
    (hsafe : ∀ w, L.coupling.Follows s s' w L.coupling.Same Run.safePoint Run.safePoint)
    (hrepeat : ∀ w x y, L.coupling.Follows s s' w L.coupling.Same x y →
      L.coupling.Follows s s' w L.coupling.Same (Run.repeatWhile x) (Run.repeatWhile y)) :
    L.coupling.Elementary s s' where
  callDepth := hdepth
  charge w grow release := charge_follows hlimit grow release
  update w a b f g hab hfg := by
    obtain rfl : a = b := hab
    obtain rfl : f = g := funext fun o =>
      (hfg w (L.refl w) o o (HeapObject.matches_refl o)).eq_of_eq
    exact steady _ _ (fun _ _ => rfl) (fun _ _ => rfl) (fun _ => rfl) (fun _ => rfl)
      (fun _ => rfl) fun _ _ => rfl
  release w n := steady _ _ (fun _ _ => rfl) (fun _ _ => rfl) (fun _ => rfl) (fun _ => rfl)
      (fun _ => rfl) fun _ _ => rfl
  place w o o' n ho := by
    obtain rfl : o = o' := ho.eq_of_eq
    exact steady _ _ (fun _ _ => rfl) (fun _ _ => rfl) (fun _ => rfl) (fun _ => rfl)
      (fun _ => rfl) fun _ _ => rfl
  openChild w kind i _ := steady _ _ (fun _ _ => rfl) (fun _ _ => rfl) (fun _ => rfl)
      (fun _ => rfl) (fun _ => rfl) fun _ _ => ⟨rfl, trivial⟩
  bind w i name b b' _ hb := by
    obtain rfl : b = b' := hb.eq_of_eq
    exact steady _ _ (fun _ _ => rfl) (fun _ _ => rfl) (fun _ => rfl) (fun _ => rfl)
      (fun _ => rfl) fun _ _ => rfl
  host w f := steady _ _ (fun _ _ => rfl) (fun _ _ => rfl) (fun _ => rfl) (fun _ => rfl)
      (fun _ => rfl) fun _ _ => rfl
  record port hf hvs := by
    obtain rfl := Value.Matches.eq_of_eq hf
    obtain rfl := Value.Matches.list_eq hvs
    exact steady _ _ (fun _ _ => rfl) (fun _ _ => rfl) (fun _ => rfl) (fun _ => rfl)
      (fun _ => rfl) fun _ _ => rfl
  safePoint := hsafe
  repeatWhile := hrepeat

end Lockstep

end ScriptHost

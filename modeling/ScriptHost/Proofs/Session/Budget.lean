import ScriptHost.Proofs.Heap.Ageing
import ScriptHost.Proofs.Session.Events
import ScriptHost.Proofs.Session.Orderly

/-!
Two sessions under different heap budgets. Collections come at different times then, and free
places are filled in a different order, so that handles differ.
-/

namespace ScriptHost

/-- No handle has come round again, unless places have been freed too often for that. -/
structure Renaming.Tracks (w : Renaming) (h h' : Heap) : Prop where
  aged : h.Aged w.collections
  aged' : h'.Aged w.collections
  unique : w.collections < 2 ^ 32 → Relator.BiUnique w.ever
  issued : w.collections < 2 ^ 32 → ∀ a b, w.ever a b → h.Issued a ∧ h'.Issued b

namespace Renaming.Tracks

variable {w : Renaming} {h h' : Heap}

theorem update (ht : w.Tracks h h') (a b : ObjectId) (f g : HeapObject → HeapObject) :
    w.Tracks (h.update a f) (h'.update b g) := by
  refine ⟨ht.aged.update a f, ht.aged'.update b g, ht.unique, fun hlt c d hcd => ?_⟩
  obtain ⟨hc, hd⟩ := ht.issued hlt c d hcd
  exact ⟨hc.later (h.ages_update a f), hd.later (h'.ages_update b g)⟩

theorem place (ht : w.Tracks h h') (hs : h.Sound) (hs' : h'.Sound) (o o' : HeapObject)
    (baseline : Nat) {ha : ∀ d, ¬ w.objects (h.place o baseline).1 d}
    {hb : ∀ c, ¬ w.objects c (h'.place o' baseline).1} :
    (w.withPair (h.place o baseline).1 (h'.place o' baseline).1 ha hb).Tracks
      (h.place o baseline).2 (h'.place o' baseline).2 := by
  refine ⟨ht.aged.place hs o baseline, ht.aged'.place hs' o' baseline, fun hlt => ?_,
    fun hlt c d hcd => ?_⟩
  · refine biUnique_andPair (ht.unique hlt) (fun d hd => ?_) fun c hc => ?_
    · exact hs.not_issued_place o baseline (ht.issued hlt _ d hd).1
    · exact hs'.not_issued_place o' baseline (ht.issued hlt c _ hc).2
  · rcases hcd with hcd | ⟨rfl, rfl⟩
    · obtain ⟨hc, hd⟩ := ht.issued hlt c d hcd
      exact ⟨hc.later (hs.ages_place o baseline), hd.later (hs'.ages_place o' baseline)⟩
    · exact ⟨hs.issued_place o baseline, hs'.issued_place o' baseline⟩

theorem tidied (ht : w.Tracks h h') (s s' : Scopes) (roots roots' : List Value)
    (scopes : List ScopeId) {v : Renaming} (hever : v.ever = w.ever)
    (hcollections : v.collections = w.collections + 1) :
    v.Tracks (h.tidied s roots scopes) (h'.tidied s' roots' scopes) := by
  refine ⟨?_, ?_, fun hlt => ?_, fun hlt a b hab => ?_⟩
  · exact hcollections ▸ ht.aged.tidied s roots scopes
  · exact hcollections ▸ ht.aged'.tidied s' roots' scopes
  · exact hever ▸ ht.unique (by omega)
  · have hab : w.ever a b := hever ▸ hab
    obtain ⟨ha, hb⟩ := ht.issued (by omega) a b hab
    exact ⟨ha.later (ht.aged.ages_tidied s roots scopes (by omega)),
      hb.later (ht.aged'.ages_tidied s' roots' scopes (by omega))⟩

end Renaming.Tracks

namespace Bond

/-- The heaps of two workers that nothing but their budgets tells apart. -/
def budgets : Bond where
  Lenient := True
  Holds w h h' := h.Paired w.objects w.scopes h' ∧ w.Tracks h h'
  paired hh := hh.1
  withScope _ hh := ⟨hh.1.mono fun _ => .inl, hh.2.aged, hh.2.aged', hh.2.unique, hh.2.issued⟩
  reckon _ hh := ⟨hh.1.reckon _ _, hh.2.aged, hh.2.aged', hh.2.unique, hh.2.issued⟩
  refuses _ := .inl trivial
  update {w _ _ _ _ _ _} hh hab hfg := ⟨hh.1.update w.unique hab hfg, hh.2.update _ _ _ _⟩
  place {_ h h' o o'} baseline hh ho := by
    obtain ⟨hp, ht⟩ := hh
    have hleft := hp.sound.place o baseline
    have hright := hp.sound'.place o' baseline
    obtain ⟨ha, hb⟩ := hp.stale hleft hright
    exact ⟨ha, hb, hp.place ho hleft hright (h.alike_place o baseline).maxString
      (h'.alike_place o' baseline).maxString, ht.place hp.sound hp.sound' o o' baseline⟩
  collect {w h h' s s' roots roots' scopes} hh hs hroots hscopes := by
    obtain ⟨hp, ht⟩ := hh
    obtain ⟨S, Q, hS, -, hp, hs, hroots, hscopes⟩ := hp.collected hs hroots hscopes
    have htracks : (w.restrict Q hS 1).Tracks (h.tidied s roots scopes)
        (h'.tidied s' roots' scopes) := ht.tidied s s' roots roots' scopes rfl rfl
    exact ⟨w.restrict Q hS 1, w.after_restrict Q hS 1, ⟨hp, htracks⟩, hs, hroots, hscopes⟩

end Bond

/-! ## Untimed workers -/

theorem Worker.oversight_untimed {w w' : Worker} (hw : w.budget = none) (hw' : w'.budget = none)
    (t : Turn) (clock clock' : Nat → Nat) :
    w.oversight t.guard (t.around clock) = w'.oversight t.guard (t.around clock') := by
  unfold oversight
  rw [hw, hw']
  rfl

/--
As long as no budget is exhausted, what a host sees of a worker does not depend on the budget of
its heap, but for the names of objects. One renaming does for all the session, unless it is so long
that the generations of a place may come round again.
-/
theorem Session.budget_unobservable (arena arena' : Nat) (host : Host) (limits : Limits)
    (slots slots' : Nat) (reporting : Bool) (clocks clocks' : Nat → Nat → Nat) (turns : List Turn)
    (htime : limits.wallClockMs = 0)
    (hoffers : ∀ t ∈ turns, t.operation.offer?.all Offer.isOwn = true) :
    let s := start arena host { limits with heapSlots := slots } reporting
    let s' := start arena' host { limits with heapSlots := slots' } reporting
    (∀ event ∈ s.events clocks turns, event.reply ≠ .outcome (.terminated .memoryLimit)) →
    (∀ event ∈ s'.events clocks' turns, event.reply ≠ .outcome (.terminated .memoryLimit)) →
    ∃ R : Nat → ObjectId → ObjectId → Prop, (∀ n, Relator.BiUnique (R n)) ∧
      (turns.length < 2 ^ 32 → Relator.BiUnique fun a b => ∃ n, R n a b) ∧
      ∀ n : Nat, Option.Rel (Event.Matches (R n)) (s.events clocks turns)[n]?
        (s'.events clocks' turns)[n]? := by
  intro s s' hleft hright
  have htracks : Renaming.blank.Tracks s.worker.environment.heap s'.worker.environment.heap :=
    ⟨fun _ _ hslot => (nomatch hslot), fun _ _ hslot => (nomatch hslot),
      fun _ => Renaming.blank.unique, fun _ _ _ => False.elim⟩
  have hheap : Bond.budgets.Holds .blank s.worker.environment.heap s'.worker.environment.heap :=
    ⟨.empty arena arena' rfl, htracks⟩
  have hstart : Bond.budgets.Sessions .blank s s' :=
    .fresh hheap (fun _ => id) limits.callDepth host _ _ reporting
  have hbudget (slots : Nat) : { limits with heapSlots := slots }.budget = none := if_pos htime
  have heven : Bond.budgets.Even s s' clocks clocks' turns := by
    refine ⟨fun n t => Worker.oversight_untimed (hbudget slots) (hbudget slots') t _ _,
      fun t ht offer hoffer w r r' hr => ?_⟩
    cases offer with
    | given n => exact hr.offered_given n
    | value v =>
      have hown := hoffers t ht
      rw [hoffer] at hown
      exact .inl (.primitive (Option.isNone_iff_eq_none.1 hown))
  obtain ⟨R, v, hafter, hend, hunique, hever, hevents⟩ := hstart.events heven fun _ =>
    ⟨hleft, hright⟩
  refine ⟨R, hunique, fun hlt => ?_, hevents⟩
  have hcollections : v.collections ≤ 0 + turns.length := hafter.collections
  exact biUnique_mono (hend.worker.environment.heap.2.unique (by omega))
    fun a b ⟨n, hab⟩ => hever n a b hab

/-- Two runs, and a question about what the first of them threw. -/
def Session.brief : List Turn :=
  [.evaluate (.anonymous "throw {}") .report, .describe (.given 0),
    .evaluate (.anonymous "[]") .propagate].map fun operation =>
      ⟨.new, fun _ _ => false, 100, operation⟩

/--
Where a single slot is the budget, what was thrown has to be collected before the second run, and
the array takes its place.
-/
theorem Session.brief_unobservable :
    let host := Host.new "worker" [] true (.dedicated .new)
    let s := start 0 host { heapSlots := 0, wallClockMs := 0 } true
    let s' := start 1 host { heapSlots := 1, wallClockMs := 0 } true
    (s.after (fun _ _ => 0) brief).given = [.object ⟨0, 20, 0⟩] ∧
      (s'.after (fun _ _ => 7) brief).given = [.object ⟨1, 19, 1⟩] ∧
      ∃ R : Nat → ObjectId → ObjectId → Prop, (∀ n, Relator.BiUnique (R n)) ∧
        (brief.length < 2 ^ 32 → Relator.BiUnique fun a b => ∃ n, R n a b) ∧
        ∀ n : Nat, Option.Rel (Event.Matches (R n)) (s.events (fun _ _ => 0) brief)[n]?
          (s'.events (fun _ _ => 7) brief)[n]? := by
  intro host s s'
  let w : Worker := (s'.after (fun _ _ => 7) (brief.take 2)).worker
  let e : Environment := w.environment
  let g : GlobalScope := ⟨⟨1, 18, 0⟩, 0⟩
  let marks : Marks := ⟨.push (.replicate 19 true) false, #[true]⟩
  let swept : Heap := { e.heap.sweep marks (List.range e.heap.places.size) with allocated := 0 }
  let last : Turn := ⟨.new, fun _ _ => false, 100, .evaluate (.anonymous "[]") .propagate⟩
  -- no kernel evaluates the marker itself, but with a bound on its steps it does
  have hcollect : e.collectGarbage g = { e with heap := swept } :=
    Environment.collectGarbage_of_markFor (n := 100) (by decide +kernel) (by decide +kernel)
  have hrun : (w.environment.run w.host (.anonymous "[]")
      (w.oversight last.guard (last.around fun _ => 7))).1 = .normal (.object ⟨1, 19, 1⟩) := by
    rw [← Environment.run_collectGarbage (g := g) (by decide +kernel), hcollect]
    decide +kernel
  obtain ⟨hgiven, event, hevents, hreply⟩ := evaluate_concat (s := s') (t := last) rfl rfl rfl hrun
  have hbrief : brief = brief.take 2 ++ [last] := rfl
  refine ⟨by decide +kernel, hbrief ▸ hgiven,
    budget_unobservable 0 1 (.new "worker" [] true (.dedicated .new)) { wallClockMs := 0 } 0 1 true
      (fun _ _ => 0) (fun _ _ => 7) brief rfl (by decide) (by decide +kernel) ?_⟩
  rw [hbrief, hevents]
  refine List.forall_mem_append.2 ⟨by decide +kernel, List.forall_mem_singleton.2 ?_⟩
  intro hlimit
  cases hreply.symm.trans hlimit

end ScriptHost

import ScriptHost.Proofs.Session.Turn

/-!
The events of two sessions with workers over bonded heaps.
-/

namespace ScriptHost

namespace Session

/-! ## One turn more -/

theorem after_concat (s : Session) (clocks : Nat → Nat → Nat) (turns : List Turn) (t : Turn) :
    s.after clocks (turns ++ [t]) = ((s.after clocks turns).turn (clocks turns.length) t).2 := by
  induction turns generalizing s clocks with
  | nil => rfl
  | cons first rest ih => exact ih (s.turn (clocks 0) first).2 fun n => clocks (n + 1)

theorem events_concat (s : Session) (clocks : Nat → Nat → Nat) (turns : List Turn) (t : Turn) :
    s.events clocks (turns ++ [t]) =
      s.events clocks turns ++ [((s.after clocks turns).turn (clocks turns.length) t).1] := by
  induction turns generalizing s clocks with
  | nil => rfl
  | cons first rest ih =>
    exact congrArg _ (ih (s.turn (clocks 0) first).2 fun n => clocks (n + 1))

theorem evaluate_concat {s : Session} {clocks : Nat → Nat → Nat} {turns : List Turn} {t : Turn}
    {source : SourceUnit} {policy : ErrorPolicy} {w : Worker} {v : Value}
    (hw : (s.after clocks turns).worker = w) (hop : t.operation = .evaluate source policy)
    (hguard : t.guard.forbidden = false)
    (hrun : (w.environment.run w.host source
      (w.oversight t.guard (t.around (clocks turns.length)))).1 = .normal v) :
    (s.after clocks (turns ++ [t])).given = [v] ∧
      ∃ event, s.events clocks (turns ++ [t]) = s.events clocks turns ++ [event] ∧
        event.reply = .outcome (.value v) := by
  subst hw
  have hvalue := Worker.evaluate_normal _ hguard policy hrun
  have hreply : ((s.after clocks turns).turn (clocks turns.length) t).1.reply =
      .outcome (.value v) := by
    rw [← hvalue]
    unfold turn
    rw [hop]
    rfl
  refine ⟨?_, _, s.events_concat clocks turns t, hreply⟩
  rw [after_concat]
  change (((s.after clocks turns).turn (clocks turns.length) t).1.reply).given _ = [v]
  rw [hreply]
  rfl

end Session

namespace Bond

variable (B : Bond)

structure Sessions (w : Renaming) (s s' : Session) : Prop where
  worker : B.Workers w Unrelated s.worker s'.worker
  given : List.Forall₂ (Value.Matches w.objects) s.given s'.given

variable {B} {w u v : Renaming} {s s' : Session}

/-- Neither session has run out of memory, or it makes no difference whether they have. -/
def Spared (B : Bond) (events events' : List Event) : Prop :=
  B.Lenient →
    (∀ event ∈ events, event.reply ≠ .outcome (.terminated .memoryLimit)) ∧
      ∀ event ∈ events', event.reply ≠ .outcome (.terminated .memoryLimit)

theorem Spared.tail {x y : Event} {xs ys : List Event} (h : B.Spared (x :: xs) (y :: ys)) :
    B.Spared xs ys :=
  fun hl => ⟨fun event hmem => (h hl).1 event (List.mem_cons_of_mem x hmem),
    fun event hmem => (h hl).2 event (List.mem_cons_of_mem y hmem)⟩

theorem takeReports_rel {W W' : Worker} {R : ObjectId → ObjectId → Prop} (h : B.Workers w R W W') :
    List.Forall₂ (Report.Matches R) W.takeReports.1 W'.takeReports.1 ∧
      B.Workers w Unrelated W.takeReports.2 W'.takeReports.2 := by
  have hreports := h.reports
  unfold Worker.takeReports
  dsimp only
  generalize W.reports = x, W'.reports = y at hreports ⊢
  cases hreports with
  | none => exact ⟨.nil, h.environment, h.host, .none⟩
  | some hps => exact ⟨hps, h.environment, h.host, .some .nil⟩

/-- What each operation may rely on: the same oversight, and offers that stand for each other. -/
structure Even (B : Bond) (s s' : Session) (clocks clocks' : Nat → Nat → Nat) (turns : List Turn) :
    Prop where
  oversight : ∀ n (t : Turn), s.worker.oversight t.guard (t.around (clocks n)) =
    s'.worker.oversight t.guard (t.around (clocks' n))
  offers : ∀ t ∈ turns, ∀ offer, t.operation.offer? = some offer →
    ∀ w r r', B.Sessions w r r' → Offered w r.worker.environment r'.worker.environment
      (offer.resolve r.given) (offer.resolve r'.given)

theorem Even.tail {clocks clocks' : Nat → Nat → Nat} {t : Turn} {turns : List Turn}
    (h : B.Even s s' clocks clocks' (t :: turns)) (clock clock' : Nat → Nat) :
    B.Even (s.turn clock t).2 (s'.turn clock' t).2 (fun n => clocks (n + 1))
      (fun n => clocks' (n + 1)) turns := by
  refine ⟨fun n t' => ?_, fun t' ht' => h.offers t' (List.mem_cons_of_mem t ht')⟩
  rw [Worker.oversight_congr (s.advances_turn clock t).budget,
    Worker.oversight_congr (s'.advances_turn clock' t).budget]
  exact h.oversight (n + 1) t'

theorem Sessions.turn (h : B.Sessions w s s') {clocks clocks' : Nat → Nat → Nat} {t : Turn}
    {turns : List Turn} (heven : B.Even s s' clocks clocks' (t :: turns))
    (hspared : B.Lenient → (s.turn (clocks 0) t).1.reply ≠ .outcome (.terminated .memoryLimit) ∧
      (s'.turn (clocks' 0) t).1.reply ≠ .outcome (.terminated .memoryLimit)) :
    ∃ v, w.After 1 v ∧
      (s.turn (clocks 0) t).1.Matches v.objects (s'.turn (clocks' 0) t).1 ∧
      B.Sessions v (s.turn (clocks 0) t).2 (s'.turn (clocks' 0) t).2 := by
  obtain ⟨hl, hgone⟩ | ⟨v, hafter, hlater, hreply, hworkers⟩ :=
    h.worker.perform (heven.oversight 0 t) t.operation fun offer hoffer =>
      heven.offers t List.mem_cons_self offer hoffer w s s' h
  · obtain ⟨hleft, hright⟩ := hspared hl
    exact absurd hgone (not_or.2 ⟨hleft, hright⟩)
  · obtain ⟨hreports, htaken⟩ := takeReports_rel hworkers
    refine ⟨v, hafter, ⟨hreply, htaken.host, hreports⟩, htaken, ?_⟩
    exact hreply.given fun hrun => h.given.imp fun _ _ hv => hv.mono (hlater hrun).objects

/-- What the hosts of two bonded sessions see is the same but for the names of objects. -/
theorem Sessions.events (h : B.Sessions w s s') {clocks clocks' : Nat → Nat → Nat}
    {turns : List Turn} (heven : B.Even s s' clocks clocks' turns)
    (hspared : B.Spared (s.events clocks turns) (s'.events clocks' turns)) :
    ∃ (R : Nat → ObjectId → ObjectId → Prop) (v : Renaming), w.After turns.length v ∧
      B.Sessions v (s.after clocks turns) (s'.after clocks' turns) ∧
      (∀ n, Relator.BiUnique (R n)) ∧ (∀ n a b, R n a b → v.ever a b) ∧
      ∀ n : Nat, Option.Rel (Event.Matches (R n)) (s.events clocks turns)[n]?
        (s'.events clocks' turns)[n]? := by
  induction turns generalizing w s s' clocks clocks' with
  | nil =>
    exact ⟨fun _ => w.objects, w, .refl w, h, fun _ => w.unique, fun _ => w.known, fun _ => .none⟩
  | cons t turns ih =>
    obtain ⟨u, hu, hevent, hrest⟩ := h.turn heven fun hl =>
      ⟨(hspared hl).1 _ List.mem_cons_self, (hspared hl).2 _ List.mem_cons_self⟩
    obtain ⟨R, v, hv, hend, hunique, hever, hevents⟩ := ih hrest (heven.tail _ _) hspared.tail
    refine ⟨fun n => n.casesOn u.objects R, v, (hu.trans hv).mono (Nat.le_of_eq ?_), hend,
      fun n => ?_, fun n => ?_, fun n => ?_⟩
    · rw [List.length_cons, Nat.add_comm]
    · cases n with
      | zero => exact u.unique
      | succ n => exact hunique n
    · cases n with
      | zero => exact fun a b hab => hv.ever a b (u.known a b hab)
      | succ n => exact hever n
    · cases n with
      | zero => exact .some hevent
      | succ n => exact hevents n

/-! ## Beginnings and offers -/

theorem Sessions.fresh {h h' : Heap} (hheap : B.Holds w h h') (hscopes : ∀ i, ¬ w.scopes i)
    (depth : Nat) (host : Host) (budget budget' : Option Nat) (reporting : Bool) :
    B.Sessions w
      ⟨⟨⟨h, .empty, none, none, depth⟩, host, budget, if reporting then some #[] else none⟩, []⟩
      ⟨⟨⟨h', .empty, none, none, depth⟩, host, budget',
        if reporting then some #[] else none⟩, []⟩ := by
  refine ⟨⟨⟨hheap, ⟨rfl, fun i hi => absurd hi (hscopes i)⟩, .none, .none, rfl⟩, rfl, ?_⟩, .nil⟩
  cases reporting with
  | false => exact .none
  | true => exact .some .nil

theorem getElem?_rel {α β : Type} {T : α → β → Prop} {xs : List α} {ys : List β}
    (h : List.Forall₂ T xs ys) (n : Nat) : Option.Rel T xs[n]? ys[n]? := by
  induction h generalizing n with
  | nil => exact .none
  | cons hxy _ ih =>
    cases n with
    | zero => exact .some hxy
    | succ n => exact ih n

theorem Sessions.offered_given (h : B.Sessions w s s') (n : Nat) :
    Offered w s.worker.environment s'.worker.environment ((Offer.given n).resolve s.given)
      ((Offer.given n).resolve s'.given) :=
  .inl (Heap.Matches.getD_undefined (getElem?_rel h.given n))

end Bond

end ScriptHost

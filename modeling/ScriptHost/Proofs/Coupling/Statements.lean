import ScriptHost.Proofs.Coupling.Expressions

/-!
Statements between coupled machines, form by form.
-/

namespace ScriptHost

open Source (Expr Stmt StmtKind)

namespace Evaluator

/-- What an attempt does once the block and the handler have ended. -/
def settle (self : Evaluator) (finalizer : Option (List Stmt)) (f : Frame)
    (ending : Except Abrupt Unit) : Run Unit := do
  match finalizer with
  | some finalizer =>
      if isFinal ending then pure () else Run.aside (self.execBlock finalizer f)
  | none => pure ()
  match ending with
  | .ok () => pure ()
  | .error abrupt => throw abrupt

theorem execAttempt_eq (self : Evaluator) (block : List Stmt) (param : Option String)
    (handler finalizer : Option (List Stmt)) (f : Frame) :
    self.execAttempt block param handler finalizer f =
      Run.attempt (self.execBlock block f) >>= fun ending =>
        (match ending, handler with
          | .error (.thrown exception), some handler =>
              Run.attempt (self.execHandler param exception handler f)
          | _, _ => pure ending) >>= self.settle finalizer f := by
  rw [execAttempt, execGuarded, bind_assoc]
  rfl

theorem settle_final (self : Evaluator) (finalizer : Option (List Stmt)) (f : Frame) (e : Abrupt)
    (he : e.isFinal = true) : self.settle finalizer f (.error e) = throw e := by
  cases finalizer with
  | none => rfl
  | some finalizer => simp only [settle, isFinal, he, if_true]

end Evaluator

namespace Coupling

variable {K : Coupling} {s s' : Setting} {w : K.Stage}

namespace Scene

variable {self self' : Evaluator} {f f' : Frame}

theorem execDeclarations (h : K.Scene s s' w self self') (hf : K.Frames w f f')
    (binder : Source.Binder) (declarations : List (String × Option Expr)) :
    K.Follows s s' w K.Same (self.execDeclarations f binder declarations)
      (self'.execDeclarations f' binder declarations) := by
  induction declarations generalizing w with
  | nil => exact Follows.skip
  | cons declaration rest ih =>
    obtain ⟨name, init⟩ := declaration
    have hrest (t : K.Stage) (ht : K.Later w t) (a b : Option ScriptHost.Value)
        (hab : Option.Rel (K.Value t) a b) :
        K.Follows s s' t K.Same
          (Run.declare f binder name a >>= fun _ => self.execDeclarations f binder rest)
          (Run.declare f' binder name b >>= fun _ => self'.execDeclarations f' binder rest) :=
      ((h.later ht).declare (hf.later ht) binder name hab).bind fun r hr _ _ _ =>
        ih (h.later (K.trans ht hr)) (hf.later (K.trans ht hr))
    cases init with
    | none =>
      exact (Follows.pure (T := fun u => Option.Rel (K.Value u)) fun _ _ => .none).bind hrest
    | some e =>
      exact ((h.evalHere e hf).map fun _ _ _ _ hv _ hr => .some (value_later hr hv)).bind hrest

/-! ## Loops -/

theorem loopBody (h : K.Scene s s' w self self') (body : Stmt) (hf : K.Frames w f f') :
    K.Follows s s' w K.Same (self.loopBody body f) (self'.loopBody body f') := by
  refine (h.execHere body hf).attempt (fun _ _ _ _ _ => Follows.pure fun _ _ => rfl)
    (fun t _ e e' he => ?_) (fun e he => ?_) (fun e he => ?_)
  · cases he with
    | thrown hv => exact Follows.error (.thrown hv)
    | returned hv => exact Follows.error (.returned hv)
    | broke => exact Follows.pure fun _ _ => rfl
    | continued => exact Follows.pure fun _ _ => rfl
  · cases e <;> first | rfl | exact absurd he Bool.false_ne_true
  · cases e <;> first | rfl | exact absurd he Bool.false_ne_true

theorem stopLoop : K.Follows s s' w K.Same (pure false : Run Bool) (pure false) :=
  Follows.pure fun _ _ => rfl

theorem whileRound (h : K.Scene s s' w self self') (test : Expr) (body : Stmt)
    (hf : K.Frames w f f') :
    K.Follows s s' w K.Same (self.whileRound test body f) (self'.whileRound test body f') := by
  refine (h.evalHere test hf).bind fun t ht v v' hv => ?_
  rw [Value.Matches.truthy_eq hv]
  split
  · exact (h.later ht).loopBody body (hf.later ht)
  · exact stopLoop

theorem doRound (h : K.Scene s s' w self self') (body : Stmt) (test : Expr)
    (hf : K.Frames w f f') :
    K.Follows s s' w K.Same (self.doRound body test f) (self'.doRound body test f') := by
  refine (h.loopBody body hf).bind fun t ht goesOn goesOn' hgoes => ?_
  obtain rfl : goesOn = goesOn' := hgoes
  split
  · exact ((h.later ht).evalHere test (hf.later ht)).map fun _ _ _ _ hv _ _ =>
      Value.Matches.truthy_eq hv
  · exact stopLoop

theorem forRest (h : K.Scene s s' w self self') (update : Option Expr) (body : Stmt)
    (hf : K.Frames w f f') (goesOn : Bool) :
    K.Follows s s' w K.Same
      (if goesOn then do
        if ← self.loopBody body f then do
          match update with
          | some update => do
              let _ ← self.eval update f
              pure true
          | none => pure true
        else pure false
      else pure false)
      (if goesOn then do
        if ← self'.loopBody body f' then do
          match update with
          | some update => do
              let _ ← self'.eval update f'
              pure true
          | none => pure true
        else pure false
      else pure false) := by
  split
  · refine (h.loopBody body hf).bind fun t ht again again' hagain => ?_
    obtain rfl : again = again' := hagain
    split
    · cases update with
      | none => exact Follows.pure fun _ _ => rfl
      | some e =>
        exact ((h.later ht).evalHere e (hf.later ht)).bind fun _ _ _ _ _ =>
          Follows.pure fun _ _ => rfl
    · exact stopLoop
  · exact stopLoop

theorem forRound (h : K.Scene s s' w self self') (test update : Option Expr) (body : Stmt)
    (hf : K.Frames w f f') :
    K.Follows s s' w K.Same (self.forRound test update body f)
      (self'.forRound test update body f') := by
  cases test with
  | none =>
    refine (Follows.pure (T := K.Same) (a := true) (b := true) fun _ _ => rfl).bind
      fun t ht goesOn goesOn' hgoes => ?_
    obtain rfl : goesOn = goesOn' := hgoes
    exact (h.later ht).forRest update body (hf.later ht) goesOn
  | some e =>
    refine ((h.evalHere e hf).map (V := K.Same) fun _ _ _ _ hv _ _ =>
      Value.Matches.truthy_eq hv).bind fun t ht goesOn goesOn' hgoes => ?_
    obtain rfl : goesOn = goesOn' := hgoes
    exact (h.later ht).forRest update body (hf.later ht) goesOn

theorem execFor (h : K.Scene s s' w self self') (init : Option Stmt) (test update : Option Expr)
    (body : Stmt) (hf : K.Frames w f f') :
    K.Follows s s' w K.Same (self.execFor init test update body f)
      (self'.execFor init test update body f') := by
  refine (h.openBlock hf).bind fun t ht g g' hg => ?_
  have hloop (r : K.Stage) (hr : K.Later t r) :
      K.Follows s s' r K.Same (Run.repeatWhile (self.forRound test update body g))
        (Run.repeatWhile (self'.forRound test update body g')) :=
    h.keeps.repeatWhile r _ _ ((h.later (K.trans ht hr)).forRound test update body (hg.later hr))
  cases init with
  | none => exact (Follows.skip (a := ())).bind fun r hr _ _ _ => hloop r hr
  | some init => exact ((h.later ht).execHere init hg).aside.bind fun r hr _ _ _ => hloop r hr

/-! ## Exceptions -/

theorem execHandler (h : K.Scene s s' w self self') (param : Option String)
    {v v' : ScriptHost.Value} (hv : K.Value w v v') (handler : List Stmt) (hf : K.Frames w f f') :
    K.Follows s s' w K.Same (self.execHandler param v handler f)
      (self'.execHandler param v' handler f') := by
  refine (h.openBlock hf).bind fun t ht g g' hg => ?_
  have hbody (r : K.Stage) (hr : K.Later t r) :
      K.Follows s s' r K.Same (self.execStatements handler g) (self'.execStatements handler g') :=
    (h.later (K.trans ht hr)).execStatements handler (hg.later hr)
  cases param with
  | none => exact (Follows.skip (a := ())).bind fun r hr _ _ _ => hbody r hr
  | some param =>
    rw [← show g.scope = g'.scope from hg.scope]
    exact ((h.later ht).bindTo hg.opened param true (value_later ht hv)).bind fun r hr _ _ _ =>
      hbody r hr

theorem settle (h : K.Scene s s' w self self') (finalizer : Option (List Stmt))
    (hf : K.Frames w f f') {ending ending' : Except Abrupt Unit}
    (hend : ∀ t, K.Later w t → K.Follows s s' t K.Same
      (match ending with
        | .ok () => pure ()
        | .error abrupt => throw abrupt : Run Unit)
      (match ending' with
        | .ok () => pure ()
        | .error abrupt => throw abrupt : Run Unit))
    (hfinal : Evaluator.isFinal ending = false) (hfinal' : Evaluator.isFinal ending' = false) :
    K.Follows s s' w K.Same (self.settle finalizer f ending)
      (self'.settle finalizer f' ending') := by
  cases finalizer with
  | none => exact (Follows.skip (a := ())).bind fun t ht _ _ _ => hend t ht
  | some finalizer =>
    simp only [Evaluator.settle, hfinal, hfinal', Bool.false_eq_true, if_false]
    exact (h.execBlock finalizer hf).aside.bind fun t ht _ _ _ => hend t ht

theorem settle_ok (h : K.Scene s s' w self self') (finalizer : Option (List Stmt))
    (hf : K.Frames w f f') (u : Unit) :
    K.Follows s s' w K.Same (self.settle finalizer f (.ok u))
      (self'.settle finalizer f' (.ok u)) :=
  h.settle finalizer hf (fun _ _ => Follows.skip) rfl rfl

theorem settle_error (h : K.Scene s s' w self self') (finalizer : Option (List Stmt))
    (hf : K.Frames w f f') {e e' : Abrupt} (he : e.Matches (K.Named w) e') :
    K.Follows s s' w K.Same (self.settle finalizer f (.error e))
      (self'.settle finalizer f' (.error e')) := by
  have hfinal : e.isFinal = false ∧ e'.isFinal = false := by cases he <;> exact ⟨rfl, rfl⟩
  exact h.settle finalizer hf (fun _ ht => Follows.error (he.mono (K.named ht))) hfinal.1 hfinal.2

theorem execAttempt (h : K.Scene s s' w self self') (block : List Stmt) (param : Option String)
    (handler finalizer : Option (List Stmt)) (hf : K.Frames w f f') :
    K.Follows s s' w K.Same (self.execAttempt block param handler finalizer f)
      (self'.execAttempt block param handler finalizer f') := by
  have hpass (E : Evaluator) (g : Frame) (e : Abrupt) (he : e.isFinal = true) :
      ((match (Except.error e : Except Abrupt Unit), handler with
        | .error (.thrown exception), some handler =>
            Run.attempt (E.execHandler param exception handler g)
        | _, _ => pure (.error e)) >>= E.settle finalizer g) = throw e := by
    cases e with
    | terminated | starved => exact E.settle_final finalizer g _ he
    | _ => exact nomatch he
  have hsettle (t : K.Stage) (ht : K.Later w t) {e e' : Abrupt} (he : e.Matches (K.Named t) e') :
      K.Follows s s' t K.Same (self.settle finalizer f (.error e))
        (self'.settle finalizer f' (.error e')) :=
    (h.later ht).settle_error finalizer (hf.later ht) he
  rw [Evaluator.execAttempt_eq, Evaluator.execAttempt_eq]
  refine (h.execBlock block hf).attempt
    (fun t ht _ _ _ => (h.later ht).settle_ok finalizer (hf.later ht) ()) (fun t ht e e' he => ?_)
    (hpass self f) (hpass self' f')
  cases he with
  | thrown hv =>
    cases handler with
    | none => exact hsettle t ht (.thrown hv)
    | some handler =>
      exact ((h.later ht).execHandler param hv handler (hf.later ht)).attempt
        (fun r hr _ _ _ =>
          (h.later (K.trans ht hr)).settle_ok finalizer (hf.later (K.trans ht hr)) ())
        (fun r hr _ _ he => hsettle r (K.trans ht hr) he)
        (self.settle_final finalizer f) (self'.settle_final finalizer f')
  | returned hv => exact hsettle t ht (.returned hv)
  | broke => exact hsettle t ht .broke
  | continued => exact hsettle t ht .continued

/-! ## Statements -/

theorem execKind (h : K.Scene s s' w self self') (kind : StmtKind) (hf : K.Frames w f f') :
    K.Follows s s' w K.Same (self.execKind kind f) (self'.execKind kind f') := by
  cases kind with
  | expression e => exact (h.evalHere e hf).bind fun _ _ _ _ hv => Follows.setCompletion hv
  | declare binder declarations => exact h.execDeclarations hf binder declarations
  | function | empty => exact Follows.skip
  | block body => exact h.execBlock body hf
  | branch test consequent alternate =>
    refine (h.evalHere test hf).bind fun t ht v v' hv => ?_
    rw [Value.Matches.truthy_eq hv]
    split
    · exact (h.later ht).execHere consequent (hf.later ht)
    · cases alternate with
      | none => exact Follows.skip
      | some alternate => exact (h.later ht).execHere alternate (hf.later ht)
  | whileLoop test body => exact h.keeps.repeatWhile w _ _ (h.whileRound test body hf)
  | doLoop body test => exact h.keeps.repeatWhile w _ _ (h.doRound body test hf)
  | forLoop init test update body => exact h.execFor init test update body hf
  | breakOff => exact Follows.error .broke
  | continueOn => exact Follows.error .continued
  | returnWith value =>
    cases value with
    | none => exact Follows.error (.returned (.primitive rfl))
    | some e => exact (h.evalHere e hf).bind fun _ _ _ _ hv => Follows.error (.returned hv)
  | throwing e => exact (h.evalHere e hf).bind fun _ _ _ _ hv => Follows.raise hv
  | attempt block param handler finalizer => exact h.execAttempt block param handler finalizer hf

theorem execStmt (h : K.Scene s s' w self self') (stmt : Stmt) (hf : K.Frames w f f') :
    K.Follows s s' w K.Same (self.execStmt stmt f) (self'.execStmt stmt f') := by
  refine (Follows.setLine stmt.line).bind fun t ht _ _ _ => ?_
  refine (h.keeps.safePoint t).bind fun r hr _ _ _ => ?_
  exact (h.later (K.trans ht hr)).execKind stmt.kind (hf.later (K.trans ht hr))

end Scene

end Coupling

end ScriptHost

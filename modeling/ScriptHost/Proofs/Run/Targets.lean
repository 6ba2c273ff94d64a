import ScriptHost.Proofs.Coupling.Law

/-!
Compound assignments and updates. Their target is found twice: once to be read and once more to be
written, the second time after all that has happened in between.
-/

namespace ScriptHost

open Source (Expr BinaryOp)

namespace Source

/-- What is assigned to, apart from names. -/
inductive Target where
  | member (object : Expr) (property : String)
  | index (object key : Expr)

def Target.expr : Target → Expr
  | .member object property => .member object property
  | .index object key => .index object key

/-- Expressions that only look at what there is. -/
inductive Expr.Quiet : Expr → Prop
  | number {x : Float} : Quiet (.number x)
  | string {s : String} : Quiet (.string s)
  | bool {b : Bool} : Quiet (.bool b)
  | null : Quiet .null
  | undefined : Quiet .undefined
  | this : Quiet .this
  | name {x : String} : Quiet (.name x)
  | unary {op : UnaryOp} {operand : Expr} : Quiet operand → Quiet (.unary op operand)
  | binary {op : BinaryOp} {left right : Expr} :
      Quiet left → Quiet right → Quiet (.binary op left right)
  | logical {op : LogicalOp} {left right : Expr} :
      Quiet left → Quiet right → Quiet (.logical op left right)
  | conditional {test consequent alternate : Expr} : Quiet test → Quiet consequent →
      Quiet alternate → Quiet (.conditional test consequent alternate)
  | member {object : Expr} {property : String} : Quiet object → Quiet (.member object property)
  | index {object key : Expr} : Quiet object → Quiet key → Quiet (.index object key)

inductive Target.Quiet : Target → Prop
  | member {object : Expr} {property : String} : object.Quiet → Quiet (.member object property)
  | index {object key : Expr} : object.Quiet → key.Quiet → Quiet (.index object key)

end Source

open Source (Target)

/-- Where a property is found. A key between brackets becomes a text where it is used. -/
inductive Place where
  | member (base : Value) (property : String)
  | index (base key : Value)

namespace Place

open Run

def read : Place → Run Value
  | member base property => getProperty base property
  | index base key => do
      let h ← heap
      match base.object?.bind fun id => h.element? id key with
      | some element => pure element
      | none => getProperty base (h.propertyKey key)

def write (value : Value) : Place → Run Unit
  | member base property => setProperty base property value
  | index base key => do
      let h ← heap
      setProperty base (h.propertyKey key) value

end Place

/-- What is written back, and what the expression comes to. -/
structure Change where
  written : Value
  result : Value

namespace Run

section

variable {α β : Type} {s : Setting} {m : Machine}

theorem bind_eq_ok {x : Run α} {f : α → Run β} {b : β} {n : Machine} :
    (x >>= f) s m = .ok b n ↔ ∃ a k, x s m = .ok a k ∧ f a s k = .ok b n := by
  cases h : x s m with
  | ok a k =>
    rw [bind_ok h]
    refine ⟨fun hf => ⟨a, k, rfl, hf⟩, ?_⟩
    rintro ⟨a', k', hx, hf⟩
    cases hx
    exact hf
  | error e k =>
    rw [bind_error h]
    constructor
    · intro hend
      cases hend
    · rintro ⟨a', k', hx, -⟩
      cases hx

theorem complain_not_ok (complaint : Complaint) {a : α} {n : Machine} :
    (complain complaint : Run α) s m ≠ .ok a n := by
  intro h
  rw [complain_eq] at h
  split at h <;> exact nomatch h

theorem nested_eq_ok {x : Run α} {a : α} {n : Machine} :
    nested x s m = .ok a n ↔ m.nesting.level < nestingLimit ∧
      ∃ k, x s { m with nesting := m.nesting.enter } = .ok a k ∧
        n = { k with nesting := k.nesting.leave } := by
  by_cases hlimit : nestingLimit ≤ m.nesting.level
  · rw [nested, if_pos hlimit]
    exact ⟨fun h => absurd h (complain_not_ok _), fun h => absurd h.1 (Nat.not_lt.2 hlimit)⟩
  · rw [nested_below x s hlimit]
    cases h : x s { m with nesting := m.nesting.enter } with
    | ok a' k =>
      simp only [mapState, EStateM.Result.ok.injEq]
      constructor
      · rintro ⟨rfl, rfl⟩
        exact ⟨Nat.not_le.1 hlimit, k, ⟨rfl, rfl⟩, rfl⟩
      · rintro ⟨-, k, ⟨rfl, rfl⟩, rfl⟩
        exact ⟨rfl, rfl⟩
    | error e k =>
      constructor
      · intro hend
        cases hend
      · rintro ⟨-, k', hx, -⟩
        cases hx

theorem nested_map (f : α → β) (x : Run α) : nested (f <$> x) = f <$> nested x := by
  funext s m
  rw [map_eq_pure_bind, map_eq_pure_bind]
  by_cases hlimit : nestingLimit ≤ m.nesting.level
  · have hrefused {γ : Type} (z : Run γ) : nested z s m = complain .stackOverflow s m :=
      if_pos hlimit
    have hcomplaint := hrefused x
    rw [complain_eq] at hcomplaint
    rw [hrefused, complain_eq]
    split at hcomplaint <;> rw [bind_error hcomplaint]
  · cases h : x s { m with nesting := m.nesting.enter } with
    | ok a k =>
      have hx := (nested_below x s hlimit).trans (congrArg _ h)
      rw [nested_below _ s hlimit, bind_ok h, bind_ok hx]
      rfl
    | error e k =>
      have hx := (nested_below x s hlimit).trans (congrArg _ h)
      rw [nested_below _ s hlimit, bind_error h, bind_error hx]
      rfl

end

end Run

namespace Evaluator

open Run

def locate (self : Evaluator) (frame : Frame) : Target → Run Place
  | .member object property => do
      let base ← self.eval object frame
      pure (.member base property)
  | .index object key => do
      let base ← self.eval object frame
      let key ← self.eval key frame
      pure (.index base key)

/-- A target as it is read, one level deeper than where it is written. -/
def found (self : Evaluator) (target : Target) (frame : Frame) : Run (Place × Value) :=
  nested do
    let place ← self.locate frame target
    let current ← place.read
    pure (place, current)

/-- What is found is changed in its place. -/
def changeOnce (self : Evaluator) (target : Target) (change : Value → Run Change)
    (frame : Frame) : Run Value := do
  let (place, current) ← self.found target frame
  let change ← change current
  place.write change.written
  pure change.result

/-- What is found is changed, and goes to the place that is found then. -/
def changeTwice (self : Evaluator) (target : Target) (change : Value → Run Change)
    (frame : Frame) : Run Value := do
  let (_, current) ← self.found target frame
  let change ← change current
  let place ← self.deeper.locate frame target
  place.write change.written
  pure change.result

/-- The change that a compound assignment makes. -/
def operated (self : Evaluator) (op : BinaryOp) (operand : Expr) (frame : Frame)
    (current : Value) : Run Change := do
  let operand ← self.eval operand frame
  let result ← binary op current operand
  pure ⟨result, result⟩

/-- The change that an update makes. -/
def counted (increment before : Bool) (current : Value) : Run Change := do
  let old := (← heap).toNumber current
  let new := if increment then old + 1.0 else old - 1.0
  pure ⟨.number new, .number (if before then new else old)⟩

variable (self : Evaluator) (target : Target) (frame : Frame)

theorem evalExpr_target :
    self.evalExpr target.expr frame = self.locate frame target >>= Place.read := by
  cases target with
  | member object property =>
    simp only [Target.expr, evalExpr, locate, Place.read, bind_assoc, pure_bind]
  | index object key =>
    change self.evalIndex object key frame = _
    simp only [locate, bind_assoc, pure_bind]
    rfl

theorem assign_target (value : Value) :
    self.assign target.expr value frame = self.locate frame target >>= Place.write value := by
  cases target with
  | member object property =>
    simp only [Target.expr, assign, locate, Place.write, bind_assoc, pure_bind]
  | index object key =>
    simp only [Target.expr, assign, evalKey, locate, Place.write, bind_assoc, pure_bind]

theorem eval_target :
    self.deeper.eval target.expr frame = Prod.snd <$> self.found target frame := by
  have hread : self.locate frame target >>= Place.read = Prod.snd <$> (do
      let place ← self.locate frame target
      let current ← place.read
      pure (place, current)) := by
    simp only [map_bind, map_pure, bind_pure]
  rw [found, ← nested_map, ← hread, ← evalExpr_target]
  rfl

/-- Both look for their target twice. -/
theorem evalAssign_target (op : BinaryOp) (operand : Expr) :
    self.deeper.evalAssign (some op) target.expr operand frame =
      self.changeTwice target (self.deeper.operated op operand frame) frame := by
  simp only [evalAssign, eval_target, assign_target, changeTwice, operated, bind_assoc, pure_bind,
    bind_map_left]

theorem evalUpdate_target (increment before : Bool) :
    self.deeper.evalUpdate increment before target.expr frame =
      self.changeTwice target (counted increment before) frame := by
  simp only [evalUpdate, eval_target, assign_target, changeTwice, counted, bind_assoc, pure_bind,
    bind_map_left]

end Evaluator

/-! ## Quiet expressions -/

namespace Run

variable {α β : Type}

/--
The first computation changes nothing but the deepest nesting yet. Wherever the memory is as it left
it, there is as much room and nesting was as deep before, the second one comes to the same and
changes nothing at all.
-/
def Repeats (x y : Run α) : Prop :=
  ∀ s m a n, x s m = .ok a n →
    (n = { m with nesting := ⟨m.nesting.level, n.nesting.peak⟩ } ∧
      m.nesting.peak ≤ n.nesting.peak) ∧
    ∀ m' : Machine, m'.heap = n.heap → m'.scopes = n.scopes →
      m'.nesting.level ≤ n.nesting.level → n.nesting.peak ≤ m'.nesting.peak → y s m' = .ok a m'

namespace Repeats

theorem pure (a : α) : Repeats (pure a) (pure a) := by
  rintro s m _ _ ⟨rfl, rfl⟩
  exact ⟨⟨rfl, Nat.le_refl _⟩, fun _ _ _ _ _ => rfl⟩

theorem of_not_ok {x y : Run α} (hx : ∀ s m a n, x s m ≠ .ok a n) : Repeats x y :=
  fun s m a n h => absurd h (hx s m a n)

theorem complain (complaint : Complaint) (y : Run α) : Repeats (complain complaint) y :=
  of_not_ok fun _ _ _ _ => complain_not_ok complaint

theorem bind {x y : Run α} {f g : α → Run β} (hx : Repeats x y)
    (hf : ∀ a, Repeats (f a) (g a)) : Repeats (x >>= f) (y >>= g) := by
  intro s m b n h
  obtain ⟨a, k, hok, hthen⟩ := bind_eq_ok.1 h
  obtain ⟨⟨hk, hpeak⟩, hy⟩ := hx s m a k hok
  obtain ⟨⟨hn, hpeak'⟩, hg⟩ := hf a s k b n hthen
  refine ⟨⟨?_, Nat.le_trans hpeak hpeak'⟩, fun m' hheap hscopes hlevel hdeep => ?_⟩
  · rw [hk] at hn
    exact hn
  · have hbetween : y s m' = .ok a m' :=
      hy m' (hheap.trans (by rw [hn])) (hscopes.trans (by rw [hn]))
        (Nat.le_trans hlevel (Nat.le_of_eq (by rw [hn]))) (Nat.le_trans hpeak' hdeep)
    rw [bind_ok hbetween]
    exact hg m' hheap hscopes hlevel hdeep

theorem heap : Repeats heap heap := by
  rintro s m _ _ ⟨rfl, rfl⟩
  exact ⟨⟨rfl, Nat.le_refl _⟩, fun m' hheap _ _ _ => congrArg (EStateM.Result.ok · m') hheap⟩

theorem scopes : Repeats scopes scopes := by
  rintro s m _ _ ⟨rfl, rfl⟩
  exact ⟨⟨rfl, Nat.le_refl _⟩, fun m' _ hscopes _ _ => congrArg (EStateM.Result.ok · m') hscopes⟩

theorem setting : Repeats setting setting := by
  rintro s m _ _ ⟨rfl, rfl⟩
  exact ⟨⟨rfl, Nat.le_refl _⟩, fun _ _ _ _ _ => rfl⟩

theorem nested {x y : Run α} (hx : Repeats x y) : Repeats (nested x) (nested y) := by
  intro s m a n h
  obtain ⟨hroom, k, hok, rfl⟩ := nested_eq_ok.1 h
  obtain ⟨⟨hk, hpeak⟩, hy⟩ := hx s _ a k hok
  have hlevel : k.nesting.level = m.nesting.level + 1 := by rw [hk]; rfl
  have hdeep : m.nesting.level + 1 ≤ k.nesting.peak := Nat.le_trans (Nat.le_max_right _ _) hpeak
  refine ⟨⟨?_, Nat.le_trans (Nat.le_max_left _ _) hpeak⟩, fun m' hheap hscopes hlevel' hpeak' => ?_⟩
  · rw [hk]
    rfl
  · simp only [Gauge.level_leave, Gauge.peak_leave, hlevel] at hlevel' hpeak'
    refine nested_eq_ok.2 ⟨by omega, { m' with nesting := m'.nesting.enter }, ?_, ?_⟩
    · refine hy _ hheap hscopes ?_ (Nat.le_trans hpeak' (Nat.le_max_left _ _))
      rw [Gauge.level_enter]
      omega
    · have hsame : m'.nesting.enter.leave = m'.nesting := by
        rw [Gauge.enter, Gauge.leave, Nat.max_eq_left (by omega)]
        rfl
      rw [hsame]

/-! ### What looking consists of -/

theorem getProperty (base : Value) (key : String) :
    Repeats (getProperty base key) (getProperty base key) := by
  refine heap.bind fun h => ?_
  split
  · exact .pure _
  · exact .complain _ _

theorem resolve? (name : String) (frame : Frame) :
    Repeats (resolve? name frame) (resolve? name frame) := by
  refine scopes.bind fun scopes => ?_
  split
  · exact .pure _
  · exact setting.bind fun s => heap.bind fun h => .pure _

theorem lookup (name : String) (frame : Frame) :
    Repeats (lookup name frame) (lookup name frame) := by
  refine (Repeats.resolve? name frame).bind fun value => ?_
  split
  · exact .pure _
  · exact .complain _ _

theorem add (left right : Value) : Repeats (add left right) (add left right) := by
  refine heap.bind fun h => ?_
  dsimp only
  split
  · split
    · exact .complain _ _
    · exact .pure _
  · exact .pure _

theorem binary (op : Source.BinaryOp) (left right : Value) :
    Repeats (binary op left right) (binary op left right) := by
  refine heap.bind fun h => ?_
  cases op with
  | add => exact .add left right
  | _ => exact .pure _

theorem read (place : Place) : Repeats place.read place.read := by
  cases place with
  | member base property => exact .getProperty base property
  | index base key =>
    refine heap.bind fun h => ?_
    split
    · exact .pure _
    · exact .getProperty _ _

end Repeats

end Run

namespace Evaluator

open Run

variable {e : Expr} {frame : Frame}

theorem repeats_deeper
    (h : ∀ depth depth', depth ≤ depth' →
      Repeats ((ofDepth depth).evalExpr e frame) ((ofDepth depth').evalExpr e frame))
    {depth depth' : Nat} (hdepth : depth ≤ depth') :
    Repeats ((ofDepth depth).eval e frame) ((ofDepth depth').eval e frame) := by
  cases depth with
  | zero => exact .complain .stackOverflow _
  | succ depth =>
    obtain ⟨depth', rfl⟩ := Nat.exists_eq_succ_of_ne_zero (Nat.ne_of_gt (Nat.zero_lt_of_lt hdepth))
    exact (h depth depth' (Nat.le_of_succ_le_succ hdepth)).nested

theorem repeats_eval (he : e.Quiet) {depth depth' : Nat} (hdepth : depth ≤ depth') :
    Repeats ((ofDepth depth).eval e frame) ((ofDepth depth').eval e frame) := by
  induction he generalizing depth depth' with
  | number | string | bool | null | undefined | this =>
    exact repeats_deeper (fun _ _ _ => .pure _) hdepth
  | @name x => exact repeats_deeper (e := .name x) (fun _ _ _ => .lookup x frame) hdepth
  | @unary op operand _ ih =>
    refine repeats_deeper (fun depth depth' hdepth => ?_) hdepth
    change Repeats ((ofDepth depth).evalUnary op operand frame)
      ((ofDepth depth').evalUnary op operand frame)
    unfold evalUnary
    split
    · exact (Repeats.resolve? _ frame).bind fun value => Repeats.heap.bind fun h => .pure _
    · refine (ih hdepth).bind fun value => Repeats.heap.bind fun h => ?_
      split <;> exact .pure _
  | binary _ _ ihl ihr =>
    refine repeats_deeper (fun depth depth' hdepth => ?_) hdepth
    exact (ihl hdepth).bind fun left => (ihr hdepth).bind fun right => .binary _ left right
  | @logical op left right _ _ ihl ihr =>
    refine repeats_deeper (fun depth depth' hdepth => ?_) hdepth
    refine (ihl hdepth).bind fun left => ?_
    split
    · exact ihr hdepth
    · exact ihr hdepth
    · exact .pure _
  | conditional _ _ _ iht ihc iha =>
    refine repeats_deeper (fun depth depth' hdepth => ?_) hdepth
    refine (iht hdepth).bind fun test => ?_
    split
    · exact ihc hdepth
    · exact iha hdepth
  | member _ ih =>
    refine repeats_deeper (fun depth depth' hdepth => ?_) hdepth
    exact (ih hdepth).bind fun base => .getProperty base _
  | index _ _ iho ihk =>
    refine repeats_deeper (fun depth depth' hdepth => ?_) hdepth
    refine (iho hdepth).bind fun base => (ihk hdepth).bind fun key => ?_
    exact .read (.index base key)

theorem repeats_locate {target : Target} (ht : target.Quiet) {depth depth' : Nat}
    (hdepth : depth ≤ depth') :
    Repeats ((ofDepth depth).locate frame target) ((ofDepth depth').locate frame target) := by
  cases ht with
  | member ho => exact (repeats_eval ho hdepth).bind fun base => .pure _
  | index ho hk =>
    exact (repeats_eval ho hdepth).bind fun base => (repeats_eval hk hdepth).bind fun key => .pure _

/-! ## The law of one evaluation -/

/-- Where the target is found again as it was, it might as well have been found once. -/
theorem changeTwice_again {self : Evaluator} {target : Target} {change : Value → Run Change}
    {s : Setting} {m : Machine}
    (h : ∀ place current n, self.found target frame s m = .ok (place, current) n →
      ∀ made k, change current s n = .ok made k →
        self.deeper.locate frame target s k = .ok place k) :
    self.changeTwice target change frame s m = self.changeOnce target change frame s m := by
  unfold changeTwice changeOnce
  cases hfound : self.found target frame s m with
  | error e n => rw [bind_error hfound, bind_error hfound]
  | ok found n =>
    obtain ⟨place, current⟩ := found
    rw [bind_ok hfound, bind_ok hfound]
    dsimp only
    cases hmade : change current s n with
    | error e k => rw [bind_error hmade, bind_error hmade]
    | ok made k =>
      rw [bind_ok hmade, bind_ok hmade, bind_ok (h place current n hfound made k hmade)]

theorem found_again {target : Target} (ht : target.Quiet) {depth : Nat} {s : Setting}
    {m n : Machine} {place : Place} {current : Value}
    (hfound : (ofDepth depth).found target frame s m = .ok (place, current) n) {k : Machine}
    (hheap : k.heap = n.heap) (hscopes : k.scopes = n.scopes)
    (hlevel : k.nesting.level ≤ n.nesting.level) (hpeak : n.nesting.peak ≤ k.nesting.peak) :
    (ofDepth (depth + 1)).locate frame target s k = .ok place k := by
  obtain ⟨-, i, hinside, rfl⟩ := nested_eq_ok.1 hfound
  obtain ⟨located, j, hlocated, hrest⟩ := bind_eq_ok.1 hinside
  obtain ⟨value, l, hread, hpair⟩ := bind_eq_ok.1 hrest
  obtain ⟨heq, rfl⟩ := EStateM.Result.ok.inj hpair
  obtain ⟨rfl, rfl⟩ := Prod.mk.inj heq
  obtain ⟨⟨hstill, hdeeper⟩, -⟩ := Repeats.read located s j value l hread
  refine (repeats_locate ht (Nat.le_succ depth) s _ located j hlocated).2 k (hheap.trans ?_)
    (hscopes.trans ?_) (Nat.le_trans hlevel ?_) (Nat.le_trans hdeeper hpeak)
  · rw [hstill]
  · rw [hstill]
  · rw [hstill]
    exact Nat.pred_le _

theorem changeTwice_quiet {target : Target} (ht : target.Quiet) {change : Value → Run Change}
    (hchange : ∀ current, Repeats (change current) (change current)) (depth : Nat) :
    (ofDepth depth).changeTwice target change frame =
      (ofDepth depth).changeOnce target change frame := by
  funext s m
  refine changeTwice_again fun place current n hfound made k hmade => ?_
  obtain ⟨⟨hk, hpeak⟩, -⟩ := hchange current s n made k hmade
  exact found_again ht hfound (by rw [hk]) (by rw [hk]) (Nat.le_of_eq (by rw [hk])) hpeak

theorem repeats_counted (increment before : Bool) (current : Value) :
    Repeats (counted increment before current) (counted increment before current) :=
  Repeats.heap.bind fun _ => .pure _

theorem repeats_operated (op : BinaryOp) {operand : Expr} (ho : operand.Quiet) (depth : Nat)
    (current : Value) :
    Repeats ((ofDepth depth).operated op operand frame current)
      ((ofDepth depth).operated op operand frame current) :=
  (repeats_eval ho (Nat.le_refl depth)).bind fun value =>
    (Repeats.binary op current value).bind fun _ => .pure _

/--
Compound assignments and updates look for their target again before they write it. They come to
what they would come to if they looked once only where that finds the same place and changes
nothing; and that is so for targets that only look at what there is, if the operand does so too.
-/
theorem targets_found_twice (depth : Nat) (target : Target) (frame : Frame) :
    (∀ op operand, (ofDepth (depth + 1)).evalAssign (some op) target.expr operand frame =
      (ofDepth depth).changeTwice target ((ofDepth (depth + 1)).operated op operand frame) frame) ∧
    (∀ increment before, (ofDepth (depth + 1)).evalUpdate increment before target.expr frame =
      (ofDepth depth).changeTwice target (counted increment before) frame) ∧
    (∀ change s m, (∀ place current n, (ofDepth depth).found target frame s m =
          .ok (place, current) n → ∀ made k, change current s n = .ok made k →
          (ofDepth (depth + 1)).locate frame target s k = .ok place k) →
      (ofDepth depth).changeTwice target change frame s m =
        (ofDepth depth).changeOnce target change frame s m) ∧
    (target.Quiet →
      (∀ increment before, (ofDepth (depth + 1)).evalUpdate increment before target.expr frame =
        (ofDepth depth).changeOnce target (counted increment before) frame) ∧
      ∀ op operand, operand.Quiet →
        (ofDepth (depth + 1)).evalAssign (some op) target.expr operand frame =
          (ofDepth depth).changeOnce target
            ((ofDepth (depth + 1)).operated op operand frame) frame) := by
  have hassign := (ofDepth depth).evalAssign_target target frame
  have hupdate := (ofDepth depth).evalUpdate_target target frame
  refine ⟨hassign, hupdate, fun _ _ _ h => changeTwice_again h,
    fun ht => ⟨fun increment before => ?_, fun op operand ho => ?_⟩⟩
  · exact (hupdate increment before).trans
      (changeTwice_quiet ht (repeats_counted increment before) depth)
  · exact (hassign op operand).trans
      (changeTwice_quiet ht (repeats_operated op ho (depth + 1)) depth)

/-- The property of a name is looked for twice, and found in the same place. -/
theorem targets_found_twice_name :
    let target : Target := .member (.name "o") "a"
    let frame : Frame := ⟨0, .undefined⟩
    target.Quiet ∧ full.evalUpdate true true target.expr frame =
      (ofDepth 511).changeOnce target (counted true true) frame := by
  intro target frame
  have hquiet : target.Quiet := .member .name
  exact ⟨hquiet, ((targets_found_twice 511 target frame).2.2.2 hquiet).1 true true⟩

section Example

/-- A function that counts its calls, and gives an object. -/
def counting : Source.Program :=
  [.mk 1 (.declare .mutable [("n", some (.string "")), ("o", some (.object [("a", .string "x")]))]),
    .mk 2 (.function (.mk (some "f") [] [
      .mk 3 (.expression (.assign none (.name "n") (.binary .add (.name "n") (.string "|")))),
      .mk 4 (.returnWith (some (.name "o")))]))]

/-- The function is called twice for one assignment to a property of what it gives. -/
theorem target_called_twice :
    let s : Setting := ⟨fun _ _ => none, 100, 128, ⟨0, 0, 0⟩, 0⟩
    let m := ((Machine.start ((Heap.empty 0 {}).allocateHost ⟨.ordinary, []⟩).2
      Scopes.empty.openGlobal.2 none (.new "" [] true (.dedicated .new))).runProgram s counting).2
    let frame : Frame := ⟨0, .object ⟨0, 0, 0⟩⟩
    let target : Target := .member (.call (.name "f") []) "a"
    let called (x : Run Value) := (left (x s m)).scopes.lookup? "n" 0
    called (full.evalAssign (some .add) target.expr (.string "y") frame) = some (.string "||") ∧
      called ((ofDepth 511).changeOnce target (full.operated .add (.string "y") frame) frame) =
        some (.string "|") := by
  decide +kernel

end Example

end Evaluator

end ScriptHost

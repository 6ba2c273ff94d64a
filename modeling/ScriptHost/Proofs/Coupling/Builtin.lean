import ScriptHost.Proofs.Coupling.Steps

/-!
Complaints, documents, operators and the functions of the host, between coupled machines.
-/

namespace ScriptHost.Coupling

open Run (onHeap)

variable {K : Coupling} {s s' : Setting} {w : K.Stage} {α β : Type} {T : K.Stage → α → β → Prop}

/-! ## Books -/

theorem over_books (f g : Machine → Machine.Books) {p q : Option (Abrupt × Machine)}
    (h : K.Over w p q) :
    K.Over w (p.map (Prod.map id fun m => m.withBooks (f m)))
      (q.map (Prod.map id fun m => m.withBooks (g m))) := by
  have hfix (f : Machine → Machine.Books) (p : Option (Abrupt × Machine)) :
      ∃ b : Machine.Books, p.map (Prod.map id fun m => m.withBooks (f m)) =
        p.map (Prod.map id fun m => m.withBooks b) := by
    cases p with
    | none => exact ⟨⟨.undefined, 0, 0, .zero, []⟩, rfl⟩
    | some end_ => exact ⟨f end_.2, rfl⟩
  obtain ⟨b, hb⟩ := hfix f p
  obtain ⟨b', hb'⟩ := hfix g q
  rw [hb, hb']
  exact K.over_still b b' h

theorem Ends.changeBooks {x : EStateM.Result Abrupt Machine α}
    {y : EStateM.Result Abrupt Machine β} {f g : Machine → Machine.Books}
    (hfg : ∀ v, K.Later w v → ∀ m m', K.State v m m' →
      Machine.Books.Matches (K.Named v) (f m) (g m'))
    (h : K.Ends w T x y) :
    K.Ends w T (Run.mapState (fun m => m.withBooks (f m)) x)
      (Run.mapState (fun m => m.withBooks (g m)) y) :=
  h.mapState (fun v hv m m' hst => K.still hst (hfg v hv m m' hst))
    fun _ _ _ _ => over_books f g

namespace Follows

variable {v v' : ScriptHost.Value}

theorem setLine (line : Nat) : K.Follows s s' w K.Same (Run.setLine line) (Run.setLine line) := by
  intro u _ m m' hst
  obtain ⟨hcompletion, _, hthrow, hcalls, hunchecked⟩ := K.books hst
  exact .ok (K.refl u) (K.still (b := { m.books with line := line })
    (c := { m'.books with line := line }) hst
    ⟨hcompletion, rfl, hthrow, hcalls, hunchecked⟩) rfl

theorem setCompletion (hv : K.Value w v v') :
    K.Follows s s' w K.Same (Run.setCompletion v) (Run.setCompletion v') := by
  intro u hu m m' hst
  obtain ⟨_, hline, hthrow, hcalls, hunchecked⟩ := K.books hst
  exact .ok (K.refl u) (K.still (b := { m.books with completion := v })
    (c := { m'.books with completion := v' }) hst
    ⟨Value.Matches.mono (K.named hu) hv, hline, hthrow, hcalls, hunchecked⟩) rfl

theorem raise (hv : K.Value w v v') : K.Follows s s' w T (Run.raise v) (Run.raise v') := by
  intro u hu m m' hst
  obtain ⟨hcompletion, hline, _, hcalls, hunchecked⟩ := K.books hst
  exact .abrupt (K.refl u) (K.still (b := { m.books with throwLine := m.line })
    (c := { m'.books with throwLine := m'.line }) hst
      ⟨hcompletion, hline, hline, hcalls, hunchecked⟩)
    (.thrown (Value.Matches.mono (K.named hu) hv))

theorem unchecked (json : Json) :
    K.Follows s s' w K.Same (Run.unchecked json) (Run.unchecked json) := by
  intro u _ m m' hst
  obtain ⟨hcompletion, hline, hthrow, hcalls, hunchecked⟩ := K.books hst
  exact .ok (K.refl u) (K.still (b := { m.books with unchecked := json :: m.unchecked })
    (c := { m'.books with unchecked := json :: m'.unchecked }) hst
    ⟨hcompletion, hline, hthrow, hcalls, congrArg (json :: ·) hunchecked⟩) rfl

theorem aside {x : Run α} {y : Run β} (h : K.Follows s s' w T x y) :
    K.Follows s s' w T (Run.aside x) (Run.aside y) := by
  intro u hu m m' hst
  obtain ⟨hcompletion, hline, hthrow, hcalls, hunchecked⟩ := K.books hst
  have hinner := h u hu (m.withBooks { m.books with completion := .undefined })
    (m'.withBooks { m'.books with completion := .undefined })
    (K.still hst ⟨.primitive rfl, hline, hthrow, hcalls, hunchecked⟩)
  have hends := hinner.changeBooks
    (f := fun n => { n.books with completion := m.completion })
    (g := fun n => { n.books with completion := m'.completion })
    fun t ht n n' hn =>
      ⟨hcompletion.mono (K.named ht), (K.books hn).line, (K.books hn).throwLine,
        (K.books hn).calls, (K.books hn).unchecked⟩
  have haside {γ : Type} (z : Run γ) (t : Setting) (n : Machine) :
      Run.aside z t n = Run.mapState
        (fun k => k.withBooks { k.books with completion := n.completion })
        (z t (n.withBooks { n.books with completion := .undefined })) :=
    Run.aside_eq z t n
  rw [haside, haside]
  exact hends

theorem inCall {x : Run α} {y : Run β} (h : K.Follows s s' w T x y) :
    K.Follows s s' w T (Run.inCall x) (Run.inCall y) := by
  intro u hu m m' hst
  obtain ⟨hcompletion, hline, hthrow, hcalls, hunchecked⟩ := K.books hst
  have hinner := h.aside u hu (m.withBooks { m.books with calls := m.calls.enter })
    (m'.withBooks { m'.books with calls := m'.calls.enter })
    (K.still hst ⟨hcompletion, hline, hthrow, congrArg Gauge.enter hcalls, hunchecked⟩)
  have hends := hinner.changeBooks
    (f := fun n => { n.books with calls := n.calls.leave, line := m.line })
    (g := fun n => { n.books with calls := n.calls.leave, line := m'.line })
    fun t _ n n' hn =>
      ⟨(K.books hn).completion, hline, (K.books hn).throwLine,
        congrArg Gauge.leave (K.books hn).calls, (K.books hn).unchecked⟩
  have hcall {γ : Type} (z : Run γ) (t : Setting) (n : Machine) :
      Run.inCall z t n = Run.mapState
        (fun k => k.withBooks { k.books with calls := k.calls.leave, line := n.line })
        (Run.aside z t (n.withBooks { n.books with calls := n.calls.enter })) :=
    Run.inCall_eq z t n
  rw [hcall, hcall]
  exact hends

end Follows

/-! ## Port functions -/

namespace Follows

variable {v v' : ScriptHost.Value}

theorem cloneMessage (hv : K.Value w v v')
    (hc : ∀ u, K.Later w u → ∀ complaint, K.Follows s s' u K.Same (Run.complain complaint : Run Json)
      (Run.complain complaint)) :
    K.Follows s s' w K.Same (Run.cloneMessage v) (Run.cloneMessage v') := by
  refine heap fun t ht h h' hm => ?_
  rw [hm.toJson_eq (Value.Matches.mono (K.named ht) hv)]
  cases h'.toJson v' with
  | ok json => exact pure fun _ _ => rfl
  | error => exact hc t ht _

end Follows

theorem head?_matches {vs vs' : List ScriptHost.Value} (hvs : List.Forall₂ (K.Value w) vs vs') :
    K.Value w (vs.head?.getD .undefined) (vs'.head?.getD .undefined) := by
  cases hvs with
  | nil => exact .primitive rfl
  | cons hv _ => exact hv

namespace Elementary

theorem complain (hk : K.Elementary s s') (complaint : Complaint) :
    K.Follows s s' w T (Run.complain complaint) (Run.complain complaint) :=
  (Follows.unchecked _).bind fun _ _ _ _ _ =>
    (hk.allocateError _ _).bind fun _ _ _ _ hv => Follows.raise hv

theorem portCall (hk : K.Elementary s s') (port : Nat) {f f' : ScriptHost.Value}
    {vs vs' : List ScriptHost.Value} (hf : K.Value w f f') (hvs : List.Forall₂ (K.Value w) vs vs') :
    K.Follows s s' w K.Value (Run.portCall port f vs) (Run.portCall port f' vs') := by
  refine (hk.record port hf hvs).bind fun t ht _ _ _ => ?_
  have hfirst := Value.Matches.mono (K.named ht) (head?_matches hvs)
  refine (Follows.cloneMessage hfirst fun _ _ => hk.complain).bind fun r _ json json' hjson => ?_
  obtain rfl : json = json' := hjson
  exact (hk.host r _).bind fun _ _ _ _ _ => Follows.pure fun _ _ => .primitive rfl

theorem keeps (hk : K.Elementary s s') : K.Keeps s s' where
  callDepth := hk.callDepth
  allocate _ := hk.allocate
  setProperty := hk.setProperty
  setElement := hk.setElement
  setLength := hk.setLength
  pushElements hab hvs := hk.pushElements hab hvs
  popElement := hk.popElement
  openChild := hk.openChild
  bind := hk.bind
  host w f _ := hk.host w f
  portCall {w _ _ _ _} port hf hvs m m' hst _ _ :=
    hk.portCall port hf hvs w (K.refl w) m m' hst
  safePoint := hk.safePoint
  repeatWhile := hk.repeatWhile

end Elementary

namespace Keeps

variable {v v' u u' : ScriptHost.Value}

theorem complain (hk : K.Keeps s s') (complaint : Complaint) :
    K.Follows s s' w T (Run.complain complaint) (Run.complain complaint) :=
  (Follows.unchecked _).bind fun _ _ _ _ _ =>
    (hk.allocateError _ _).bind fun _ _ _ _ hv => Follows.raise hv

theorem checkCallDepth (hk : K.Keeps s s') :
    K.Follows s s' w K.Same Run.checkCallDepth Run.checkCallDepth := by
  intro t ht m m' hst
  have hcalls : m.calls = m'.calls := (K.books hst).calls
  unfold Run.checkCallDepth
  rw [hk.callDepth, hcalls]
  split
  · exact hk.complain .stackOverflow t ht m m' hst
  · exact .ok (K.refl t) hst rfl

theorem string (hk : K.Keeps s s') (text : String) :
    K.Follows s s' w K.Value (Run.string text) (Run.string text) := by
  refine Follows.heap fun t _ h h' hm => ?_
  rw [hm.maxString]
  split
  · exact hk.complain .stringLength
  · exact Follows.pure fun _ _ => .primitive rfl

/-! ## Documents -/

mutual

theorem fromJson (hk : K.Keeps s s') (w : K.Stage) (json : Json) :
    K.Follows s s' w K.Value (onHeap (Heap.fromJson json)) (onHeap (Heap.fromJson json)) := by
  cases json with
  | list items =>
    simp only [Heap.fromJson, Run.onHeap_bind, Run.onHeap_map]
    refine (fromItems hk w .nil items).bind fun t _ vs vs' hvs => ?_
    exact Follows.object_matches _ rfl (hk.allocate rfl ⟨.array hvs, .nil⟩)
  | object members =>
    simp only [Heap.fromJson, Run.onHeap_bind, Run.onHeap_map]
    refine (fromMembers hk w .nil members).bind fun t _ ps ps' hps => ?_
    exact Follows.object_matches _ rfl (hk.allocate rfl ⟨.ordinary, hps⟩)
  | _ => exact Follows.pure fun _ _ => .primitive rfl

theorem fromItems (hk : K.Keeps s s') (w : K.Stage) {vs vs' : Array ScriptHost.Value}
    (hvs : HeapObject.ItemsMatch (K.Named w) vs vs') (items : List Json) :
    K.Follows s s' w (fun u => HeapObject.ItemsMatch (K.Named u))
      (onHeap (Heap.fromItems vs items)) (onHeap (Heap.fromItems vs' items)) := by
  cases items with
  | nil => exact Follows.pure fun _ hu => hvs.mono (K.named hu)
  | cons item rest =>
    simp only [Heap.fromItems, Run.onHeap_bind]
    refine (fromJson hk w item).bind fun t ht v v' hv => ?_
    exact fromItems hk t ((hvs.mono (K.named ht)).push hv) rest

theorem fromMembers (hk : K.Keeps s s') (w : K.Stage)
    {ps ps' : Array (String × ScriptHost.Value)}
    (hps : Table.Matches (K.Value w) ps.toList ps'.toList) (members : List (String × Json)) :
    K.Follows s s' w (fun u ps ps' => Table.Matches (K.Value u) ps.toList ps'.toList)
      (onHeap (Heap.fromMembers ps members)) (onHeap (Heap.fromMembers ps' members)) := by
  cases members with
  | nil => exact Follows.pure fun _ hu => hps.mono fun _ _ => Value.Matches.mono (K.named hu)
  | cons member rest =>
    obtain ⟨key, item⟩ := member
    simp only [Heap.fromMembers, Run.onHeap_bind]
    refine (fromJson hk w item).bind fun t ht v v' hv => ?_
    refine fromMembers hk t ?_ rest
    rw [Array.toList_push, Array.toList_push]
    exact List.rel_append (hps.mono fun _ _ => Value.Matches.mono (K.named ht))
      (.cons ⟨rfl, hv⟩ .nil)

end

/-! ## Operators -/

theorem add (hk : K.Keeps s s') (hv : K.Value w v v') (hu : K.Value w u u') :
    K.Follows s s' w K.Value (Run.add v u) (Run.add v' u') := by
  refine Follows.heap fun t ht h h' hm => ?_
  have hv' : K.Value t v v' := Value.Matches.mono (K.named ht) hv
  have hu' : K.Value t u u' := Value.Matches.mono (K.named ht) hu
  have hleft : K.Value t _ _ := .primitive (Heap.Matches.object?_toPrimitive h' v')
  have hright : K.Value t _ _ := .primitive (Heap.Matches.object?_toPrimitive h' u')
  simp only [hm.display_eq hleft, hm.display_eq hright, hm.toNumber_eq hleft,
    hm.toNumber_eq hright, hm.toPrimitive_eq hv', hm.toPrimitive_eq hu', hm.maxString]
  split
  · split
    · exact hk.complain .stringLength
    · exact Follows.pure fun _ _ => .primitive rfl
  · exact Follows.pure fun _ _ => .primitive rfl

theorem binary (hk : K.Keeps s s') (op : Source.BinaryOp) (hv : K.Value w v v')
    (hu : K.Value w u u') :
    K.Follows s s' w K.Value (Run.binary op v u) (Run.binary op v' u') := by
  refine Follows.heap fun t ht h h' hm => ?_
  have hv' : K.Value t v v' := Value.Matches.mono (K.named ht) hv
  have hu' : K.Value t u u' := Value.Matches.mono (K.named ht) hu
  cases op with
  | add => exact hk.add hv' hu'
  | _ =>
    simp only [hm.toNumber_eq hv', hm.toNumber_eq hu', hm.compare?_eq hv' hu',
      Value.Matches.strictEquals_eq (K.unique t) hv' hu',
      hm.looseEquals_eq (K.unique t) hv' hu']
    exact Follows.pure fun _ _ => .primitive rfl

/-! ## Properties -/

theorem getProperty (hk : K.Keeps s s') (hv : K.Value w v v') (key : String) :
    K.Follows s s' w K.Value (Run.getProperty v key) (Run.getProperty v' key) := by
  refine Follows.heap fun t ht h h' hm => ?_
  have hv' : K.Value t v v' := Value.Matches.mono (K.named ht) hv
  have hrel := hm.property?_rel hv' key
  rw [hm.display_eq hv']
  generalize h.property? v key = x, h'.property? v' key = y at hrel ⊢
  cases hrel with
  | some hxy => exact Follows.pure fun _ hr => Value.Matches.mono (K.named hr) hxy
  | none => exact hk.complain _

theorem assignProperty (hk : K.Keeps s s') (hv : K.Value w v v') (key : String)
    (hu : K.Value w u u') :
    K.Follows s s' w K.Same (Run.setProperty v key u) (Run.setProperty v' key u') := by
  cases hv with
  | object hab =>
    refine (hk.writeProperty hab key hu).bind fun t _ a b hb => ?_
    obtain rfl : a = b := hb
    cases a with
    | true => exact Follows.skip
    | false => exact hk.complain .arrayLength
  | primitive hv =>
    let refuse : Run Unit := Run.heap >>= fun h => Run.complain (.unwritable (h.display v) key)
    have hrefuse : K.Follows s s' w K.Same refuse refuse :=
      Follows.heap fun t _ h h' hm => by
        rw [hm.display_eq (.primitive hv)]
        exact hk.complain _
    cases v with
    | object => exact nomatch hv
    | undefined | null => exact hrefuse
    | bool | number | string => exact Follows.skip

theorem callArrayMethod (hk : K.Keeps s s') {a b : ObjectId} (hab : K.Named w a b)
    (method : Run.ArrayMethod) {vs vs' : List ScriptHost.Value}
    (hvs : List.Forall₂ (K.Value w) vs vs') :
    K.Follows s s' w K.Value (Run.callArrayMethod a method vs)
      (Run.callArrayMethod b method vs') := by
  cases method with
  | push =>
    refine (hk.pushElements hab hvs).bind fun t _ n n' hn => ?_
    obtain rfl : n = n' := hn
    exact Follows.pure fun _ _ => .primitive rfl
  | pop => exact hk.popElement hab
  | join =>
    refine Follows.heap fun t ht h h' hm => ?_
    have hab' := K.named ht _ _ hab
    simp only [hm.join_eq hab']
    cases hvs with
    | nil => exact hk.string _
    | @cons v _ _ _ hv _ =>
      have hdisplay := hm.display_eq (Value.Matches.mono (K.named ht) hv)
      cases hv with
      | object => simp only [List.head?_cons, hdisplay]; exact hk.string _
      | primitive => cases v <;> simp only [List.head?_cons, hdisplay] <;> exact hk.string _

/-! ## Functions of the host -/

theorem host_undefined (hk : K.Keeps s s') {f : Host → Host} (hf : Host.Aside f) :
    K.Follows s s' w K.Value (Run.onHost f >>= fun _ => pure .undefined)
      (Run.onHost f >>= fun _ => pure .undefined) :=
  (hk.host w f hf).bind fun _ _ _ _ _ => Follows.pure fun _ _ => .primitive rfl

theorem postMessage (hk : K.Keeps s s') (hv : K.Value w v v') :
    K.Follows s s' w K.Value
      (Run.cloneMessage v >>= fun json =>
        Run.onHost (fun host => host.postToParent json) >>= fun _ => pure .undefined)
      (Run.cloneMessage v' >>= fun json =>
        Run.onHost (fun host => host.postToParent json) >>= fun _ => pure .undefined) := by
  refine (Follows.cloneMessage hv fun _ _ => hk.complain).bind fun t _ json json' hjson => ?_
  obtain rfl : json = json' := hjson
  exact hk.host_undefined (Host.aside_postToParent json)

theorem callNative (hk : K.Keeps s s') {function : Native} {vs vs' : List ScriptHost.Value}
    (hfunction : ∀ port, function ≠ .portPostMessage port)
    (hvs : List.Forall₂ (K.Value w) vs vs') :
    K.Follows s s' w K.Value (Run.callNative function vs) (Run.callNative function vs') := by
  have hfirst := head?_matches hvs
  generalize hv : vs.head?.getD .undefined = v at hfirst
  generalize hv' : vs'.head?.getD .undefined = v' at hfirst
  unfold Run.callNative
  simp only [hv, hv']
  cases function with
  | console level =>
    refine Follows.heap fun t ht h h' hm => ?_
    have htexts : vs.map h.display = vs'.map h'.display := by
      clear hv hv'
      induction hvs with
      | nil => rfl
      | cons hv _ ih =>
        rw [List.map_cons, List.map_cons, ih,
          hm.display_eq (Value.Matches.mono (K.named ht) hv)]
    rw [htexts]
    exact hk.host_undefined (Host.aside_writeLog _)
  | close => exact hk.host_undefined Host.aside_close
  | postMessage => exact hk.postMessage hfirst
  | portPostMessage port => exact absurd rfl (hfunction port)
  | errorConstructor kind =>
    refine Follows.heap fun t ht h h' hm => ?_
    have hundefined : (v = .undefined) = (v' = .undefined) := propext hfirst.undefined_iff
    simp only [hundefined, hm.display_eq (Value.Matches.mono (K.named ht) hfirst)]
    exact (Follows.unchecked _).bind fun _ _ _ _ _ => hk.allocateError _ _
  | jsonStringify =>
    refine Follows.heap fun t ht h h' hm => ?_
    have hfirst' : K.Value t v v' := Value.Matches.mono (K.named ht) hfirst
    have hundefined : (v = .undefined) = (v' = .undefined) := propext hfirst.undefined_iff
    simp only [hundefined, hm.isCallable_eq hfirst', hm.toJson_eq hfirst']
    split
    · exact Follows.pure fun _ _ => .primitive rfl
    · cases h'.toJson v' with
      | ok json => exact hk.string _
      | error => exact hk.complain _
  | jsonParse =>
    refine Follows.heap fun t ht h h' hm => ?_
    simp only [hm.display_eq (Value.Matches.mono (K.named ht) hfirst)]
    cases Json.ofText (h'.display v') with
    | ok json => exact (Follows.unchecked json).bind fun u _ _ _ _ => hk.fromJson u json
    | error => exact hk.complain _

end Keeps

end ScriptHost.Coupling

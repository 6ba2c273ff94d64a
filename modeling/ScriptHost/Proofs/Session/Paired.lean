import ScriptHost.Proofs.Coupling.Reading
import ScriptHost.Proofs.Heap.Sweeping

/-!
Two heaps, and the scopes over them, some of whose live objects stand for each other.
-/

namespace ScriptHost

variable {R S : ObjectId → ObjectId → Prop} {P Q : ScopeId → Prop}

theorem biUnique_mono (hu : Relator.BiUnique S) (hRS : ∀ a b, R a b → S a b) :
    Relator.BiUnique R :=
  ⟨fun _ _ _ h h' => hu.1 (hRS _ _ h) (hRS _ _ h'),
    fun _ _ _ h h' => hu.2 (hRS _ _ h) (hRS _ _ h')⟩

def Unrelated (_ _ : ObjectId) : Prop :=
  False

theorem unrelated {R : ObjectId → ObjectId → Prop} (a b : ObjectId) (h : Unrelated a b) : R a b :=
  h.elim

def AndPair (R : ObjectId → ObjectId → Prop) (a b c d : ObjectId) : Prop :=
  R c d ∨ c = a ∧ d = b

theorem biUnique_andPair {a b : ObjectId} (hu : Relator.BiUnique R) (ha : ∀ d, ¬ R a d)
    (hb : ∀ c, ¬ R c b) : Relator.BiUnique (AndPair R a b) := by
  constructor
  · rintro c c' d (h | ⟨rfl, rfl⟩) (h' | ⟨rfl, hd⟩)
    · exact hu.1 h h'
    · exact absurd (hd ▸ h) (hb c)
    · exact absurd h' (hb c')
    · rfl
  · rintro c d d' (h | ⟨rfl, rfl⟩) (h' | ⟨hc, rfl⟩)
    · exact hu.2 h h'
    · exact absurd (hc ▸ h) (ha d)
    · exact absurd h' (ha d')
    · rfl

theorem forall₂_of_mem {α β : Type} {T U : α → β → Prop} {xs : List α} {ys : List β}
    (h : List.Forall₂ T xs ys) (hTU : ∀ x ∈ xs, ∀ y, T x y → U x y) : List.Forall₂ U xs ys := by
  induction h with
  | nil => exact .nil
  | cons hxy _ ih =>
    exact .cons (hTU _ List.mem_cons_self _ hxy)
      (ih fun x hx => hTU x (List.mem_cons_of_mem _ hx))

/-! ## Restriction -/

section Restriction

variable {keep : Reference → Prop}

theorem HeapObject.mem_references {o : HeapObject} {id : ObjectId} (h : .object id ∈ o.values) :
    Reference.object id ∈ o.references :=
  List.mem_append_left _ (List.mem_filterMap.2 ⟨_, h, rfl⟩)

theorem Scope.mem_references {c : Scope} {p : String × Binding} {id : ObjectId}
    (hp : p ∈ c.bindings) (h : p.2.value = .object id) : Reference.object id ∈ c.references := by
  refine List.mem_append_left _ (List.mem_filterMap.2 ⟨p, hp, ?_⟩)
  change p.2.value.reference? = _
  rw [h]
  rfl

theorem Value.Matches.restrict {v v' : Value} (hv : v.Matches R v')
    (hkeep : ∀ id, v = .object id → keep (.object id)) :
    v.Matches (fun a b => R a b ∧ keep (.object a)) v' := by
  cases hv with
  | object hab => exact .object ⟨hab, hkeep _ rfl⟩
  | primitive hv => exact .primitive hv

theorem HeapObject.Matches.restrict {o o' : HeapObject} (ho : o.Matches R P o')
    (hkeep : ∀ r ∈ o.references, keep r) :
    o.Matches (fun a b => R a b ∧ keep (.object a)) (fun i => P i ∧ keep (.scope i)) o' := by
  have hvalue : ∀ v ∈ o.values, ∀ v', v.Matches R v' →
      v.Matches (fun a b => R a b ∧ keep (.object a)) v' := fun v hv v' hmatch =>
    hmatch.restrict fun id hid => hkeep _ (HeapObject.mem_references (hid ▸ hv))
  obtain ⟨kind, properties⟩ := o
  obtain ⟨kind', properties'⟩ := o'
  obtain ⟨hkind, hproperties⟩ := ho
  refine ⟨?_, ?_⟩
  · cases hkind with
    | ordinary => exact .ordinary
    | array hitems =>
      exact .array (forall₂_of_mem hitems fun v hv => hvalue v (List.mem_append_left _ hv))
    | function hclosure =>
      exact .function ⟨hclosure, hkeep _ (List.mem_append_right _ List.mem_cons_self)⟩
    | native => exact .native
    | error => exact .error
  · exact forall₂_of_mem hproperties fun p hp q hpq =>
      ⟨hpq.1, hvalue p.2 (List.mem_append_right _ (List.mem_map_of_mem hp)) q.2 hpq.2⟩

theorem Scope.Matches.restrict {c c' : Scope} (hc : c.Matches R P c')
    (hkeep : ∀ r ∈ c.references, keep r) :
    c.Matches (fun a b => R a b ∧ keep (.object a)) (fun i => P i ∧ keep (.scope i)) c' := by
  refine ⟨hc.kind, ?_, hc.parent, fun id hid => ⟨hc.around id hid, hkeep _ ?_⟩⟩
  · exact forall₂_of_mem hc.bindings fun p hp q hpq =>
      ⟨hpq.1, hpq.2.value.restrict fun id hid => hkeep _ (Scope.mem_references hp hid),
        hpq.2.isMutable⟩
  · exact List.mem_append_right _ (by rw [hid]; exact List.mem_cons_self)

end Restriction

/-! ## References -/

/-- What the reference leads to stands for something. -/
def Reference.Known (R : ObjectId → ObjectId → Prop) (P : ScopeId → Prop) : Reference → Prop
  | .object id => ∃ other, R id other
  | .scope id => P id

theorem exists_of_mem {vs vs' : List Value} {id : ObjectId}
    (h : List.Forall₂ (Value.Matches R) vs vs') (hid : .object id ∈ vs) : ∃ other, R id other := by
  induction h with
  | nil => exact absurd hid List.not_mem_nil
  | cons hv _ ih =>
    rcases List.mem_cons.1 hid with heq | hid
    · cases hv with
      | object hab =>
        obtain rfl := Value.object.inj heq
        exact ⟨_, hab⟩
      | primitive hnone =>
        rw [← heq] at hnone
        exact nomatch hnone
    · exact ih hid

theorem HeapObject.Matches.known {o o' : HeapObject} (ho : o.Matches R P o') :
    ∀ r ∈ o.references, r.Known R P := by
  intro r hr
  rcases List.mem_append.1 hr with hr | hr
  · obtain ⟨id, rfl, hid⟩ := Value.mem_of_reference? hr
    exact exists_of_mem ho.values_forall₂ hid
  · obtain ⟨kind, properties⟩ := o
    obtain ⟨kind', properties'⟩ := o'
    obtain ⟨hkind, -⟩ := ho
    cases hkind with
    | function hclosure =>
      obtain rfl := List.mem_singleton.1 hr
      exact hclosure
    | _ => exact absurd hr List.not_mem_nil

theorem Scope.Matches.known {c c' : Scope} (hc : c.Matches R P c') :
    ∀ r ∈ c.references, r.Known R P := by
  intro r hr
  rcases List.mem_append.1 hr with hr | hr
  · obtain ⟨p, hp, hr⟩ := List.mem_filterMap.1 hr
    have hvalues : List.Forall₂ (Value.Matches R) (c.bindings.map fun p => p.2.value)
        (c'.bindings.map fun p => p.2.value) :=
      List.rel_map (fun _ _ hpq => hpq.2.value) hc.bindings
    have hr : r ∈ [p.2.value].filterMap Value.reference? := List.mem_filterMap.2
      ⟨_, List.mem_singleton_self _, hr⟩
    obtain ⟨id, rfl, hid⟩ := Value.mem_of_reference? hr
    exact exists_of_mem hvalues (List.mem_map.2 ⟨p, hp, (List.mem_singleton.1 hid).symm⟩)
  · obtain ⟨i, hi, rfl⟩ := List.mem_map.1 hr
    exact hc.around i (Option.mem_toList.1 hi)

/-! ## Heaps -/

namespace Heap

/-- Objects that stand for each other are live and the same but for the names of objects. -/
structure Paired (R : ObjectId → ObjectId → Prop) (P : ScopeId → Prop) (h h' : Heap) : Prop where
  maxString : h.maxString = h'.maxString
  sound : h.Sound
  sound' : h'.Sound
  live : ∀ a b, R a b → ∃ o o', h.find? a = some o ∧ h'.find? b = some o' ∧ o.Matches R P o'

namespace Paired

variable {h h' k k' : Heap}

theorem empty (arena arena' : Nat) {limits limits' : Limits}
    (hstring : limits.longestString = limits'.longestString) :
    (Heap.empty arena limits).Paired Unrelated P (.empty arena' limits') :=
  ⟨hstring, .empty arena limits, .empty arena' limits', fun _ _ h => h.elim⟩

theorem swap (hp : h.Paired R P h') : h'.Paired (fun a b => R b a) P h := by
  refine ⟨hp.maxString.symm, hp.sound', hp.sound, fun a b hab => ?_⟩
  obtain ⟨o, o', ho, ho', hmatch⟩ := hp.live b a hab
  exact ⟨o', o, ho', ho, hmatch.swap⟩

theorem mono (hp : h.Paired R P h') (hPQ : ∀ i, P i → Q i) : h.Paired R Q h' := by
  refine ⟨hp.maxString, hp.sound, hp.sound', fun a b hab => ?_⟩
  obtain ⟨o, o', ho, ho', hmatch⟩ := hp.live a b hab
  exact ⟨o, o', ho, ho', hmatch.mono (fun _ _ => id) hPQ⟩

theorem toMatches (hp : h.Paired R P h') : h.Matches R P h' := by
  refine ⟨hp.maxString, fun a b hab => ?_⟩
  obtain ⟨o, o', ho, ho', hmatch⟩ := hp.live a b hab
  rw [object_eq ho, object_eq ho']
  exact hmatch

theorem owns (hp : h.Paired R P h') {v v' : Value} (hv : v.Matches R v') : h.owns v = true := by
  cases hv with
  | @object a b hab =>
    obtain ⟨o, -, ho, -⟩ := hp.live a b hab
    exact isLive_iff.2 ⟨o, ho⟩
  | primitive hnone =>
    cases v with
    | object => exact nomatch hnone
    | _ => rfl

theorem congr (hp : h.Paired R P h') (hstring : k.maxString = h.maxString)
    (hstring' : k'.maxString = h'.maxString) (hs : k.Sound) (hs' : k'.Sound)
    (hfind : ∀ id, k.find? id = h.find? id) (hfind' : ∀ id, k'.find? id = h'.find? id) :
    k.Paired R P k' := by
  refine ⟨hstring.trans (hp.maxString.trans hstring'.symm), hs, hs', fun a b hab => ?_⟩
  rw [hfind, hfind']
  exact hp.live a b hab

theorem reckon (hp : h.Paired R P h') (used used' : Nat) :
    { h with used := used }.Paired R P { h' with used := used' } :=
  hp.congr rfl rfl ⟨hp.sound.vacant, hp.sound.nodup⟩ ⟨hp.sound'.vacant, hp.sound'.nodup⟩
    (fun _ => rfl) fun _ => rfl

theorem update (hp : h.Paired R P h') (hu : Relator.BiUnique R) {a b : ObjectId} (hab : R a b)
    {f g : HeapObject → HeapObject} (hfg : ∀ o o', o.Matches R P o' → (f o).Matches R P (g o')) :
    (h.update a f).Paired R P (h'.update b g) := by
  obtain ⟨o, o', ho, ho', hmatch⟩ := hp.live a b hab
  refine ⟨?_, hp.sound.update ho f, hp.sound'.update ho' g, fun c d hcd => ?_⟩
  · rw [update_of_find? ho, update_of_find? ho']
    exact hp.maxString
  · by_cases hca : c = a
    · subst hca
      obtain rfl : d = b := hu.2 hcd hab
      exact ⟨f o, g o', find?_update ho f, find?_update ho' g, hfg o o' hmatch⟩
    · have hdb : d ≠ b := fun hdb => hca (hu.1 hcd (hdb ▸ hab))
      rw [find?_update_of_ne ho f hca, find?_update_of_ne ho' g hdb]
      exact hp.live c d hcd

theorem stale (hp : h.Paired R P h') {o o' : HeapObject} {a b : ObjectId} (ha : h.Placed o a k)
    (hb : h'.Placed o' b k') : (∀ d, ¬ R a d) ∧ ∀ c, ¬ R c b := by
  refine ⟨fun d had => ?_, fun c hcb => ?_⟩
  · obtain ⟨o, -, ho, -⟩ := hp.live a d had
    exact nomatch ha.stale.symm.trans ho
  · obtain ⟨-, o', -, ho', -⟩ := hp.live c b hcb
    exact nomatch hb.stale.symm.trans ho'

theorem place (hp : h.Paired R P h') {o o' : HeapObject} (hmatch : o.Matches R P o')
    {a b : ObjectId} (ha : h.Placed o a k) (hb : h'.Placed o' b k')
    (hstring : k.maxString = h.maxString) (hstring' : k'.maxString = h'.maxString) :
    k.Paired (AndPair R a b) P k' := by
  obtain ⟨hleft, hright⟩ := hp.stale ha hb
  refine ⟨hstring.trans (hp.maxString.trans hstring'.symm), ha.sound, hb.sound, fun c d hcd => ?_⟩
  have hgrow : ∀ c d, R c d → AndPair R a b c d := fun _ _ => .inl
  rcases hcd with hcd | ⟨rfl, rfl⟩
  · obtain ⟨p, p', hp, hp', hmatch'⟩ := hp.live c d hcd
    have hca : c ≠ a := fun hca => hleft d (hca ▸ hcd)
    have hdb : d ≠ b := fun hdb => hright c (hdb ▸ hcd)
    exact ⟨p, p', (ha.elsewhere c hca).trans hp, (hb.elsewhere d hdb).trans hp',
      hmatch'.mono hgrow fun _ => id⟩
  · exact ⟨o, o', ha.here, hb.here, hmatch.mono hgrow fun _ => id⟩

end Paired

end Heap

/-! ## Scopes -/

namespace Scopes

structure Paired (R : ObjectId → ObjectId → Prop) (P : ScopeId → Prop) (s s' : Scopes) :
    Prop where
  size : s.size = s'.size
  opened : ∀ i, P i → ∃ c c', s.get? i = some c ∧ s'.get? i = some c' ∧ c.Matches R P c'

namespace Paired

variable {s s' : Scopes}

theorem swap (hp : s.Paired R P s') : s'.Paired (fun a b => R b a) P s := by
  refine ⟨hp.size.symm, fun i hi => ?_⟩
  obtain ⟨c, c', hc, hc', hmatch⟩ := hp.opened i hi
  exact ⟨c', c, hc', hc, hmatch.swap⟩

theorem mono (hp : s.Paired R P s') (hRS : ∀ a b, R a b → S a b) : s.Paired S P s' := by
  refine ⟨hp.size, fun i hi => ?_⟩
  obtain ⟨c, c', hc, hc', hmatch⟩ := hp.opened i hi
  exact ⟨c, c', hc, hc', hmatch.mono hRS fun _ => id⟩

theorem toMatches (hp : s.Paired R P s') : s.Matches R P s' := by
  intro i hi
  obtain ⟨c, c', hc, hc', hmatch⟩ := hp.opened i hi
  rw [hc, hc']
  exact .some hmatch

theorem push_new {entries : Array Scope} (scope : Scope) :
    (entries.push scope)[entries.size]? = some scope :=
  Array.getElem?_push_size

theorem get?_push {entries : Array Scope} {i : ScopeId} {c scope : Scope}
    (hc : entries[i]? = some c) : (entries.push scope)[i]? = some c := by
  rw [Array.getElem?_push, if_neg (Nat.ne_of_lt (Array.getElem?_eq_some_iff.1 hc).1)]
  exact hc

theorem push (hp : s.Paired R P s') {t t' : Scopes} {scope scope' : Scope}
    (ht : t.entries = s.entries.push scope) (ht' : t'.entries = s'.entries.push scope')
    (hmatch : scope.Matches R (fun i => P i ∨ i = s.size) scope') :
    t.Paired R (fun i => P i ∨ i = s.size) t' := by
  have hsize : s.entries.size = s'.entries.size := hp.size
  refine ⟨?_, fun i hi => ?_⟩
  · rw [Scopes.size, Scopes.size, ht, ht', Array.size_push, Array.size_push, hsize]
  · simp only [get?, ht, ht']
    rcases hi with hi | rfl
    · obtain ⟨c, c', hc, hc', hm⟩ := hp.opened i hi
      exact ⟨c, c', get?_push hc, get?_push hc', hm.mono (fun _ _ => id) fun _ => .inl⟩
    · refine ⟨scope, scope', push_new scope, ?_, hmatch⟩
      rw [Scopes.size, hsize]
      exact push_new scope'

theorem openChild (hp : s.Paired R P s') (kind : ScopeKind) {i : ScopeId} (hi : P i) :
    (s.openChild kind i).2.Paired R (fun j => P j ∨ j = s.size) (s'.openChild kind i).2 := by
  refine hp.push rfl rfl ⟨rfl, .nil, ?_, fun j hj => ?_⟩
  · exact congrArg (fun size => if i < size then some i else none) hp.size
  · obtain ⟨c, -, hc, -⟩ := hp.opened i hi
    have hlt : i < s.size := (Array.getElem?_eq_some_iff.1 hc).1
    rw [show (if i < s.size then some i else none) = some i from if_pos hlt] at hj
    exact .inl (Option.some.inj hj ▸ hi)

theorem openGlobal (hp : s.Paired R P s') :
    (s.openGlobal).2.Paired R (fun j => P j ∨ j = s.size) (s'.openGlobal).2 :=
  hp.push rfl rfl ⟨rfl, .nil, rfl, fun _ hj => absurd hj.symm (Option.some_ne_none _)⟩

theorem bind (hp : s.Paired R P s') (i : ScopeId) (name : String) {b b' : Binding}
    (hb : b.Matches R b') : (s.bind i name b).Paired R P (s'.bind i name b') := by
  refine ⟨?_, fun j hj => ?_⟩
  · simp only [Scopes.size, Scopes.bind, Array.size_modify]
    exact hp.size
  · obtain ⟨c, c', hc, hc', hmatch⟩ := hp.opened j hj
    simp only [get?, Scopes.bind, Array.getElem?_modify]
    split
    · exact ⟨_, _, congrArg (Option.map _) hc, congrArg (Option.map _) hc', hmatch.put name hb⟩
    · exact ⟨c, c', hc, hc', hmatch⟩

end Paired

end Scopes

/-! ## Collections -/

def Marks.Has (m : Marks) : Reference → Prop
  | .object id => m.objects[id.index]? = some true
  | .scope id => m.scopes[id]? = some true

section Collection

variable {h h' k : Heap} {s s' : Scopes} {m : Marks}

theorem Marks.Reached.has {r : Reference} (hr : m.Reached h s r) (hp : h.Paired R P h')
    (hs : s.Paired R P s') (hknown : r.Known R P) : m.Has r := by
  cases r with
  | object id =>
    obtain ⟨other, hid⟩ := hknown
    obtain ⟨o, -, ho, -⟩ := hp.live id other hid
    exact hr o ho
  | scope id =>
    obtain ⟨c, -, hc, -⟩ := hs.opened id hknown
    exact hr c hc

theorem Heap.Paired.kept (hp : h.Paired R P h') (hs : s.Paired R P s') (hk : h.Kept s m k) :
    k.Paired (fun a b => R a b ∧ m.Has (.object a)) (fun i => P i ∧ m.Has (.scope i)) h' := by
  refine ⟨hk.alike.maxString.trans hp.maxString, hk.sound hp.sound, hp.sound', ?_⟩
  rintro a b ⟨hab, hmark⟩
  obtain ⟨o, o', ho, ho', hmatch⟩ := hp.live a b hab
  refine ⟨o, o', (hk.find?_eq hmark).trans ho, ho', hmatch.restrict fun r hr => ?_⟩
  have hreached := (hk.closed.objects a o ho hmark r hr).resolve_right List.not_mem_nil
  exact hreached.has hp hs (hmatch.known r hr)

theorem Scopes.Paired.kept (hs : s.Paired R P s') (hp : h.Paired R P h') (hk : h.Kept s m k) :
    s.Paired (fun a b => R a b ∧ m.Has (.object a)) (fun i => P i ∧ m.Has (.scope i)) s' := by
  refine ⟨hs.size, ?_⟩
  rintro i ⟨hi, hmark⟩
  obtain ⟨c, c', hc, hc', hmatch⟩ := hs.opened i hi
  refine ⟨c, c', hc, hc', hmatch.restrict fun r hr => ?_⟩
  have hreached := (hk.closed.scopes i c hc hmark r hr).resolve_right List.not_mem_nil
  exact hreached.has hp hs (hmatch.known r hr)

/-- What is still paired once the heap on the left has been tidied. -/
theorem Heap.Paired.tidied {roots roots' : List Value} {scopes : List ScopeId}
    (hp : h.Paired R P h') (hs : s.Paired R P s')
    (hroots : List.Forall₂ (Value.Matches R) roots roots') (hscopes : ∀ i ∈ scopes, P i) :
    ∃ (S : ObjectId → ObjectId → Prop) (Q : ScopeId → Prop), (∀ a b, S a b → R a b) ∧
      (∀ a b o, R a b → (h.tidied s roots scopes).find? a = some o → S a b) ∧
      (h.tidied s roots scopes).Paired S Q h' ∧ s.Paired S Q s' ∧
      List.Forall₂ (Value.Matches S) roots roots' ∧ ∀ i ∈ scopes, Q i := by
  rcases h.tidied_kept s roots scopes with hsame | ⟨m, hk, hobjects, hopened⟩
  · rw [hsame]
    exact ⟨R, P, fun _ _ => id, fun _ _ _ hab _ => hab, hp, hs, hroots, hscopes⟩
  · refine ⟨_, _, fun _ _ => And.left, fun a b o hab ho => ⟨hab, hk.marked ho⟩, hp.kept hs hk,
      hs.kept hp hk, ?_, fun i hi => ?_⟩
    · exact forall₂_of_mem hroots fun v hv v' hmatch => hmatch.restrict fun id hid =>
        (hobjects id (hid ▸ hv)).has hp hs (exists_of_mem hroots (hid ▸ hv))
    · exact ⟨hscopes i hi, (hopened i hi).has hp hs (hscopes i hi)⟩

theorem Heap.Paired.collected {roots roots' : List Value} {scopes : List ScopeId}
    (hp : h.Paired R P h') (hs : s.Paired R P s')
    (hroots : List.Forall₂ (Value.Matches R) roots roots') (hscopes : ∀ i ∈ scopes, P i) :
    ∃ (S : ObjectId → ObjectId → Prop) (Q : ScopeId → Prop), (∀ a b, S a b → R a b) ∧
      (∀ a b o o', R a b → (h.tidied s roots scopes).find? a = some o →
        (h'.tidied s' roots' scopes).find? b = some o' → S a b) ∧
      (h.tidied s roots scopes).Paired S Q (h'.tidied s' roots' scopes) ∧ s.Paired S Q s' ∧
      List.Forall₂ (Value.Matches S) roots roots' ∧ ∀ i ∈ scopes, Q i := by
  obtain ⟨S, Q, hSR, hkept, hp, hs, hroots, hscopes⟩ := hp.tidied hs hroots hscopes
  -- the heap on the right is tidied as if it were the one on the left
  have hflipped : List.Forall₂ (Value.Matches fun a b => S b a) roots' roots :=
    hroots.flip.imp fun _ _ hv => hv.swap
  obtain ⟨S', Q', hSS', hkept', hp, hs, hroots, hscopes⟩ := hp.swap.tidied hs.swap hflipped hscopes
  refine ⟨fun a b => S' b a, Q', fun a b hab => hSR a b (hSS' b a hab),
    fun a b o o' hab ho ho' => hkept' b a o' (hkept a b o hab ho) ho', hp.swap, hs.swap, ?_,
    hscopes⟩
  exact hroots.flip.imp fun _ _ hv => hv.swap

end Collection

end ScriptHost

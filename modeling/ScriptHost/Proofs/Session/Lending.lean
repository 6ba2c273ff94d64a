import ScriptHost.Proofs.Heap.Ledger
import ScriptHost.Session

/-!
What a host lends to scripts: the text that it puts where they can shorten it, beyond one slot for
each value.
-/

namespace ScriptHost

namespace Table

def surplus (t : Table Value) : Nat :=
  (t.map fun p => p.2.slots - 1).sum

theorem surplus_cons (key : String) (value : Value) (t : Table Value) :
    surplus ((key, value) :: t) = value.slots - 1 + surplus t :=
  List.sum_cons

theorem surplus_append (t t' : Table Value) : surplus (t ++ t') = surplus t + surplus t' := by
  simp only [surplus, List.map_append, List.sum_append]

end Table

theorem HeapObject.lent_eq_surplus {o : HeapObject} (hitems : o.items = []) :
    o.lent = o.properties.surplus := by
  have hslots : slotsOf (o.properties.map Prod.snd) = o.properties.length + o.properties.surplus := by
    generalize o.properties = t
    induction t with
    | nil => rfl
    | cons first rest ih =>
        have := first.2.one_le_slots
        rw [List.map_cons, slotsOf_cons, ih, Table.surplus_cons, List.length_cons]
        omega
  simp only [lent, slots, width, values, hitems, List.nil_append, hslots]
  omega

def Role.texts : Role → Table Value
  | .shared name _ => [("name", .string name)]
  | .dedicated _ => []

/-- What a host tells scripts about themselves. -/
def Host.texts (host : Host) : Table Value :=
  ("location", .string host.location) :: GlobalScope.env host ++ host.role.texts

def Host.lent (host : Host) : Nat :=
  host.texts.surplus

/-- A payload that is no document is thrown at the script as an error of the host. -/
def lentByPayload (payload : List UInt8) : Nat :=
  match Json.ofBytes payload with
  | .ok _ => 0
  | .error fault =>
      (Heap.errorObject .dataClone ("Failed to deserialize message: " ++ fault.message)).lent

/-- Errors made by the host are lent, whether or not it asks for them. -/
def Operation.lent : Operation → Nat
  | .createError kind message => (Heap.errorObject kind message).lent
  | .deliver payload => lentByPayload payload
  | _ => 0

theorem Host.lent_connect {host host' : Host} {port : Nat}
    (h : host.connect? = some (port, host')) : host'.lent = host.lent := by
  unfold connect? at h
  cases hrole : host.role with
  | dedicated parent =>
      rw [hrole] at h
      exact nomatch h
  | shared name ports =>
      rw [hrole] at h
      obtain ⟨-, rfl⟩ := Prod.mk.inj (Option.some.inj h)
      rw [lent, lent, texts, texts, hrole]
      rfl

namespace GlobalScope

variable {α β : Type} {n : Nat} {T : α → Prop} {U : β → Prop}

/-- A part of the global scope that lends so many slots. -/
def Lends (n : Nat) (T : α → Prop) (x : Building α) : Prop :=
  ∀ h l, Heap.Solvent h l →
    (x h).2.Solvent { l with credit := l.credit + n } ∧ T (x h).1

theorem Lends.pure {a : α} (ha : T a) : Lends 0 T (pure a : Building α) :=
  fun _ _ hs => ⟨hs, ha⟩

theorem Lends.bind_free {x : Building α} {f : α → Building β} (hx : Lends n T x)
    (hf : ∀ a, T a → Lends 0 U (f a)) : Lends n U (x >>= f) := by
  intro h l hs
  obtain ⟨hs', ha⟩ := hx h l hs
  exact hf _ ha _ _ hs'

theorem Lends.free_bind {x : Building α} {f : α → Building β} (hx : Lends 0 T x)
    (hf : ∀ a, T a → Lends n U (f a)) : Lends n U (x >>= f) := by
  intro h l hs
  obtain ⟨hs', ha⟩ := hx h l hs
  exact hf _ ha _ _ hs'

theorem lends_make (o : HeapObject) : Lends o.lent (fun v => v.slots = 1) (make o) :=
  fun _ _ hs => ⟨hs.allocateHost o, rfl⟩

theorem lends_makeOrdinary {t : Table Value} (ht : t.surplus = n) :
    Lends n (fun v => v.slots = 1) (make ⟨.ordinary, t⟩) := by
  have hlent : HeapObject.lent ⟨.ordinary, t⟩ = n := (HeapObject.lent_eq_surplus rfl).trans ht
  exact hlent ▸ lends_make ⟨.ordinary, t⟩

theorem lends_lend (function : Native) : Lends 0 (fun v => v.slots = 1) (lend function) :=
  lends_make ⟨.native function, []⟩

theorem lends_lendAll (functions : List (String × Native)) :
    Lends 0 (fun t => Table.surplus t = 0) (lendAll functions) := by
  induction functions with
  | nil => exact .pure rfl
  | cons first rest ih =>
      obtain ⟨name, function⟩ := first
      rw [lendAll_cons]
      refine (lends_lend function).free_bind fun value hvalue => ih.free_bind fun values hvalues => ?_
      refine .pure ?_
      rw [Table.surplus_cons, hvalue, hvalues]

theorem lends_roleProperties (host : Host) :
    Lends 0 (fun t => t.surplus = host.role.texts.surplus) (roleProperties host) := by
  unfold roleProperties
  cases host.role with
  | dedicated parent =>
      refine (lends_lend .postMessage).free_bind fun value hvalue => .pure ?_
      rw [Table.surplus_cons, hvalue]
      rfl
  | shared name ports => exact .pure rfl

/-- The variables are lent in an object of their own, and the rest in the global object. -/
theorem lends_properties (host : Host) :
    Lends (env host).surplus (fun t => (env host).surplus + t.surplus = host.lent)
      (properties host) := by
  refine (lends_lendAll console).free_bind fun levels hlevels => ?_
  refine (lends_makeOrdinary hlevels).free_bind fun console hconsole => ?_
  refine (lends_lendAll json).free_bind fun codecs hcodecs => ?_
  refine (lends_makeOrdinary hcodecs).free_bind fun json hjson => ?_
  refine (lends_makeOrdinary rfl).bind_free fun env henv => ?_
  refine (lends_lendAll errors).free_bind fun errors herrors => ?_
  refine (lends_lend .close).free_bind fun close hclose => ?_
  refine (lends_roleProperties host).free_bind fun role hrole => .pure ?_
  have hnumber (x : Float) : (Value.number x).slots = 1 := rfl
  have hnil : Table.surplus [] = 0 := rfl
  simp only [Host.lent, Host.texts, List.cons_append, List.nil_append, Table.surplus_append,
    Table.surplus_cons, hconsole, hjson, henv, herrors, hclose, hrole, hnumber, hnil]
  omega

theorem build_solvent {h : Heap} {budget credit : Nat} (hs : h.Solvent ⟨budget, none, credit⟩)
    (scopes : Scopes) (host : Host) :
    (build h scopes host).2.1.Solvent
      ⟨budget, some (build h scopes host).1.object, credit + host.lent⟩ := by
  obtain ⟨hmade, hlent⟩ := lends_properties host h _ hs
  unfold build
  generalize properties host h = made at hmade hlent ⊢
  obtain ⟨table, made⟩ := made
  have hobject : HeapObject.lent ⟨.ordinary, table⟩ = table.surplus :=
    HeapObject.lent_eq_surplus rfl
  have hself : (Value.object (made.allocateHost ⟨.ordinary, table⟩).1).slots = 1 := rfl
  have hkept := hmade.keep rfl ⟨.ordinary, table⟩ "self" hself
  rw [hobject] at hkept
  have hcredit : credit + host.lent = credit + (env host).surplus + table.surplus := by
    dsimp only at hlent
    omega
  rw [hcredit]
  exact hkept

end GlobalScope

end ScriptHost

import ScriptHost.Json.Read
import ScriptHost.Proofs.Heap.Lengths
import ScriptHost.Proofs.Json.Documents

/-!
Documents that are read. No text in one is longer than the bytes it was read from, and no key comes
twice.
-/

namespace ScriptHost

/-! ## Characters -/

namespace Text

theorem val_ofNat {value : Nat} (h : value.isValidChar) : (Char.ofNat value).val.toNat = value := by
  rw [Char.ofNat, dif_pos h]
  rfl

theorem utf8Size_le_two {c : Char} (h : c.val.toNat < 0x800) : c.utf8Size ≤ 2 := by
  rcases c.utf8Size_eq with h' | h' | h' | h'
  · omega
  · omega
  · have := (Char.utf8Size_eq_three_iff.1 h').1
    simp only [UInt32.lt_iff_toNat_lt] at this
    have h0 : (2047 : UInt32).toNat = 2047 := rfl
    omega
  · have := Char.utf8Size_eq_four_iff.1 h'
    simp only [UInt32.lt_iff_toNat_lt] at this
    have h0 : (65535 : UInt32).toNat = 65535 := rfl
    omega

theorem utf8Size_le_three {c : Char} (h : c.val.toNat < 0x10000) : c.utf8Size ≤ 3 := by
  have hfour := c.utf8Size_le_four
  by_contra hlong
  have h' : c.utf8Size = 4 := by omega
  have := Char.utf8Size_eq_four_iff.1 h'
  simp only [UInt32.lt_iff_toNat_lt] at this
  have h0 : (65535 : UInt32).toNat = 65535 := rfl
  omega

theorem utf8Size_le_one {c : Char} (h : c.val.toNat < 0x80) : c.utf8Size ≤ 1 := by
  refine Nat.le_of_eq (Char.utf8Size_eq_one_iff.2 ?_)
  simp only [UInt32.le_iff_toNat_le]
  have h0 : (127 : UInt32).toNat = 127 := rfl
  omega

theorem scalar?_eq_some {least value : Nat} {c : Char} (h : scalar? least value = some c) :
    c.val.toNat = value := by
  unfold scalar? at h
  split at h
  · next hvalid => exact Option.some.inj h ▸ val_ofNat hvalid.2
  · exact nomatch h

theorem tailBits_lt {b : UInt8} (h : isContinuation b = true) : tailBits b < 64 := by
  unfold isContinuation at h
  unfold tailBits
  simp only [Bool.and_eq_true, decide_eq_true_eq, UInt8.lt_iff_toNat_lt] at h
  have h0 : (0xc0 : UInt8).toNat = 192 := rfl
  omega

/-- A character takes no more bytes than it was read from. -/
theorem utf8Size_decodeChar? {bytes rest : List UInt8} {c : Char}
    (h : decodeChar? bytes = some (c, rest)) : c.utf8Size + rest.length ≤ bytes.length := by
  have hscalar {least value : Nat} {tail : List UInt8}
      (h : (scalar? least value).map (·, tail) = some (c, rest)) :
      c.val.toNat = value ∧ tail = rest := by
    obtain ⟨d, hd, heq⟩ := Option.map_eq_some_iff.1 h
    obtain ⟨rfl, rfl⟩ := Prod.mk.inj heq
    exact ⟨scalar?_eq_some hd, rfl⟩
  unfold decodeChar? at h
  split at h
  · exact nomatch h
  next a tail =>
  split at h
  · next hone =>
    have ha : a.toNat < 0x80 := UInt8.lt_iff_toNat_lt.1 hone
    obtain ⟨rfl, rfl⟩ := Prod.mk.inj (Option.some.inj h)
    have hvalid : a.toNat.isValidChar := .inl (by omega)
    have hsize := utf8Size_le_one ((val_ofNat hvalid).symm ▸ ha)
    simp only [List.length_cons]
    omega
  split at h
  · next htwo =>
    simp only [Bool.and_eq_true, decide_eq_true_eq, UInt8.le_iff_toNat_le,
      UInt8.lt_iff_toNat_lt] at htwo
    have hhigh : a.toNat < 0xe0 := htwo.2
    split at h
    · split at h
      · next b _ hb =>
        obtain ⟨hval, rfl⟩ := hscalar h
        have hb := tailBits_lt hb
        have hsize := utf8Size_le_two (c := c) (by omega)
        simp only [List.length_cons]
        omega
      · exact nomatch h
    · exact nomatch h
  split at h
  · next hthree =>
    simp only [Bool.and_eq_true, decide_eq_true_eq, UInt8.le_iff_toNat_le,
      UInt8.lt_iff_toNat_lt] at hthree
    have hhigh : a.toNat < 0xf0 := hthree.2
    split at h
    · split at h
      · next b d _ hbd =>
        obtain ⟨hval, rfl⟩ := hscalar h
        obtain ⟨hb, hd⟩ := Bool.and_eq_true_iff.1 hbd
        have hb := tailBits_lt hb
        have hd := tailBits_lt hd
        have hsize := utf8Size_le_three (c := c) (by omega)
        simp only [List.length_cons]
        omega
      · exact nomatch h
    · exact nomatch h
  split at h
  · split at h
    · split at h
      · obtain ⟨-, rfl⟩ := hscalar h
        have hsize := c.utf8Size_le_four
        simp only [List.length_cons]
        omega
      · exact nomatch h
    · exact nomatch h
  · exact nomatch h

/-- The bytes that characters take. -/
def width (chars : List Char) : Nat :=
  (String.ofList chars).utf8ByteSize

theorem width_cons (c : Char) (chars : List Char) :
    width (c :: chars) = c.utf8Size + width chars := by
  simp [width]

theorem width_reverse (chars : List Char) : width chars.reverse = width chars := by
  induction chars with
  | nil => rfl
  | cons c rest ih =>
      have happend (xs ys : List Char) : width (xs ++ ys) = width xs + width ys := by simp [width]
      rw [List.reverse_cons, happend, ih, width_cons, width_cons]
      exact Nat.add_comm _ _

theorem width_decodeFrom (read : List Char) (bytes : List UInt8) :
    width (decodeFrom read bytes).1 + (decodeFrom read bytes).2.length ≤
      width read + bytes.length := by
  induction read, bytes using decodeFrom.induct with
  | case1 read bytes hnone =>
      rw [decodeFrom]
      split
      · exact Nat.le_refl _
      · next hsome => exact nomatch hnone.symm.trans hsome
  | case2 read bytes c rest hsome ih =>
      rw [decodeFrom]
      split
      · next hnone => exact nomatch hsome.symm.trans hnone
      · next d rest' hsome' =>
        obtain ⟨rfl, rfl⟩ := Prod.mk.inj (Option.some.inj (hsome.symm.trans hsome'))
        have htaken := utf8Size_decodeChar? hsome
        rw [width_cons] at ih
        omega

theorem width_decode (bytes : List UInt8) :
    width (decode bytes).1 + (decode bytes).2.length ≤ bytes.length := by
  have hread := width_decodeFrom [] bytes
  have hnone : width [] = 0 := rfl
  rw [hnone, Nat.zero_add] at hread
  rw [decode, width_reverse]
  exact hread

end Text

namespace Json

open Reading

variable {α β σ : Type} {k : Nat}

/-- A document from at most so many bytes. -/
inductive Written (k : Nat) : Json → Prop
  | null : Written k .null
  | bool {b : Bool} : Written k (.bool b)
  | integer {n : Int} : Written k (.integer n)
  | real {x : Float} : Written k (.real x)
  | text {s : String} : s.utf8ByteSize ≤ k → Written k (.text s)
  | list {items : List Json} : (∀ item ∈ items, Written k item) → Written k (.list items)
  | object {members : List (String × Json)} : Ascending members →
      (∀ member ∈ members, Written k member.2) → Written k (.object members)

theorem Written.fits {json : Json} (h : json.Written k) : json.Fits k := by
  induction h with
  | null => exact .null
  | bool => exact .bool
  | integer => exact .integer
  | real => exact .real
  | text htext => exact .text htext
  | list _ ih => exact .list ih
  | object _ _ ih => exact .object ih

/-! ## Reading -/

/--
Of at most so many bytes, some are in hand when the reading begins and some when it ends; none but
those and the bytes still left are there to be read.
-/
def Reads (k held : Nat) (x : Reading α) (holds : α → Nat) (Q : α → Prop) : Prop :=
  ∀ left a rest, held + left.length ≤ k → x left = .ok a rest → holds a + rest.length ≤ k ∧ Q a

namespace Reads

variable {held held' : Nat} {x : Reading α} {holds : α → Nat} {Q : α → Prop} {gains : β → Nat}
  {R : β → Prop}

theorem pure {a : α} (hheld : holds a ≤ held) (ha : held ≤ k → Q a) :
    Reads k held (pure a) holds Q := by
  intro left b rest hk hok
  obtain ⟨rfl, rfl⟩ := EStateM.Result.ok.inj hok
  exact ⟨Nat.le_trans (Nat.add_le_add_right hheld _) hk, ha (Nat.le_of_add_right_le hk)⟩

theorem bind {f : α → Reading β} (hx : Reads k held x holds Q)
    (hf : ∀ a, Q a → Reads k (holds a) (f a) gains R) : Reads k held (x >>= f) gains R := by
  intro left b rest hk hok
  simp only [Bind.bind, EStateM.bind] at hok
  cases hstep : x left with
  | ok a between =>
      rw [hstep] at hok
      obtain ⟨hbetween, ha⟩ := hx left a between hk hstep
      exact hf a ha between b rest hbetween hok
  | error =>
      rw [hstep] at hok
      exact nomatch hok

theorem hold (hx : Reads k held x holds Q) {more : Nat} (hmore : held ≤ more) :
    Reads k more x holds Q :=
  fun left a rest hk => hx left a rest (Nat.le_trans (Nat.add_le_add_right hmore _) hk)

/-- What is in hand may be let go. -/
theorem drop (hx : Reads k held x holds Q) {fewer : α → Nat} (hfewer : ∀ a, fewer a ≤ holds a) :
    Reads k held x fewer Q := by
  intro left a rest hk hok
  obtain ⟨hheld, ha⟩ := hx left a rest hk hok
  exact ⟨Nat.le_trans (Nat.add_le_add_right (hfewer a) _) hheld, ha⟩

theorem map {f : α → β} (hx : Reads k held x holds Q) (hgains : ∀ a, gains (f a) ≤ holds a)
    (hf : ∀ a, Q a → R (f a)) : Reads k held (f <$> x) gains R := by
  rw [map_eq_pure_bind]
  exact hx.bind fun a ha => .pure (hgains a) fun _ => hf a ha

theorem failHere (cause : Cause) : Reads k held (Reading.failHere cause) holds Q :=
  fun _ _ _ _ hok => nomatch hok

theorem failNext (cause : Cause) : Reads k held (Reading.failNext cause) holds Q :=
  fun _ _ _ _ hok => nomatch hok

theorem peek : Reads k held peek (fun _ => held) fun _ => True := by
  intro left b rest hk hok
  obtain ⟨-, rfl⟩ := EStateM.Result.ok.inj hok
  exact ⟨hk, trivial⟩

theorem skip : Reads k held skip (fun _ => held) fun _ => True := by
  intro left b rest hk hok
  obtain ⟨-, rfl⟩ := EStateM.Result.ok.inj hok
  rw [List.length_tail]
  exact ⟨Nat.le_trans (Nat.add_le_add_left (Nat.sub_le _ _) held) hk, trivial⟩

/-- The byte taken is in hand. -/
theorem next : Reads k held next (fun b => held + b.elim 0 fun _ => 1) fun _ => True := by
  intro left b rest hk hok
  obtain ⟨rfl, rfl⟩ := EStateM.Result.ok.inj hok
  cases left with
  | nil => exact ⟨hk, trivial⟩
  | cons first left =>
      rw [List.length_cons] at hk
      dsimp only [List.head?_cons, Option.elim_some, List.tail_cons]
      exact ⟨by omega, trivial⟩

theorem dropWhile (p : UInt8 → Bool) :
    Reads k held (fun left => .ok () (left.dropWhile p)) (fun _ => held) fun _ => True := by
  intro left b rest hk hok
  obtain ⟨-, rfl⟩ := EStateM.Result.ok.inj hok
  have hdropped := (List.dropWhile_suffix p (l := left)).length_le
  exact ⟨Nat.le_trans (Nat.add_le_add_left hdropped held) hk, trivial⟩

theorem peekToken : Reads k held peekToken (fun _ => held) fun _ => True :=
  (dropWhile isSpace).bind fun _ _ => peek

/-- What one round keeps, rounds keep until there is an answer. -/
theorem repeatUntil {step : σ → Reading (σ ⊕ α)} (carried : σ → Nat) (I : σ → Prop)
    (hstep : ∀ s, I s → Reads k (carried s) (step s) (Sum.elim carried holds) (Sum.elim I Q))
    {seed : σ} (hseed : I seed) :
    Reads k (carried seed) (repeatUntil step seed) holds Q := by
  have halong (bound : List UInt8) : ∀ s, I s →
      Reads k (carried s) (repeatAlong step bound s) holds Q := by
    induction bound with
    | nil =>
        intro s hs
        rw [repeatAlong]
        refine (hstep s hs).bind fun answer hanswer => ?_
        cases answer with
        | inl s => exact failHere _
        | inr a => exact .pure (Nat.le_refl _) fun _ => hanswer
    | cons _ bound ih =>
        intro s hs
        rw [repeatAlong]
        refine (hstep s hs).bind fun answer hanswer => ?_
        cases answer with
        | inl s => exact ih s hanswer
        | inr a => exact .pure (Nat.le_refl _) fun _ => hanswer
  exact fun left a rest hk hok => halong left seed hseed left a rest hk hok

end Reads

/-! ## Numbers -/

theorem written_signedReal (negative : Bool) (x : Float) : (signedReal negative x).Written k :=
  .real

theorem written_signedInteger (negative : Bool) (significand : Nat) :
    (signedInteger negative significand).Written k := by
  unfold signedInteger
  split
  · exact .integer
  · split
    · exact .integer
    · exact .real

/-- A document read with nothing in hand. -/
def ReadsDocument (k : Nat) (x : Reading Json) : Prop :=
  Reads k 0 x (fun _ => 0) (Json.Written k)

/-- A round of a loop that reads one, and what it keeps of the items so far. -/
def ReadsRound (k : Nat) (I : σ → Prop) (x : Reading (σ ⊕ Json)) : Prop :=
  Reads k 0 x (Sum.elim (fun _ => 0) fun _ => 0) (Sum.elim I (Json.Written k))

namespace ReadsRound

variable {I : σ → Prop}

theorem again {s : σ} (hs : I s) : ReadsRound k I (pure (.inl s)) :=
  Reads.pure (Nat.le_refl 0) fun _ => hs

theorem done {json : Json} (hj : json.Written k) : ReadsRound k I (pure (.inr json)) :=
  Reads.pure (Nat.le_refl 0) fun _ => hj

theorem answer {x : Reading Json} (hx : ReadsDocument k x) : ReadsRound k I (.inr <$> x) :=
  Reads.map hx (fun _ => Nat.le_refl 0) fun _ => id

theorem repeatUntil {step : σ → Reading (σ ⊕ Json)} {seed : σ} (hseed : I seed)
    (hstep : ∀ s, I s → ReadsRound k I (step s)) : ReadsDocument k (repeatUntil step seed) :=
  Reads.repeatUntil (fun _ => 0) I hstep hseed

/-- A loop over digits keeps nothing. -/
theorem repeatDigits {step : σ → Reading (σ ⊕ Json)} {seed : σ}
    (hstep : ∀ s, ReadsRound k (fun _ => True) (step s)) :
    ReadsDocument k (Reading.repeatUntil step seed) :=
  repeatUntil trivial fun s _ => hstep s

end ReadsRound

theorem reads_scaled (negative : Bool) (significand : Nat) (exponent : Int) :
    ReadsDocument k (scaled negative significand exponent) := by
  unfold scaled
  split
  · exact Reads.pure (Nat.le_refl 0) fun _ => written_signedReal _ _
  · exact Reads.failHere _

theorem reads_readPower (negative : Bool) (significand : Nat) (start : Int) (down : Bool) :
    ReadsDocument k (readPower negative significand start down) := by
  have hfinish (exponent : Nat) :
      ReadsDocument k (readPower.finish negative significand start down exponent) :=
    reads_scaled negative significand _
  refine Reads.bind (Reads.next.drop fun _ => Nat.zero_le _) fun next _ => ?_
  split
  · exact Reads.failHere _
  · split
    · exact Reads.failHere _
    · refine ReadsRound.repeatDigits fun exponent => Reads.peek.bind fun next _ => ?_
      split
      · split
        · refine Reads.skip.bind fun _ _ => ?_
          dsimp only
          split
          · exact ReadsRound.again trivial
          · split
            · exact Reads.failHere _
            · refine (Reads.dropWhile isDigit).bind fun _ _ => ?_
              exact ReadsRound.done (written_signedReal _ _)
        · exact ReadsRound.answer (hfinish exponent)
      · exact ReadsRound.answer (hfinish exponent)

theorem reads_readExponent (negative : Bool) (significand : Nat) (start : Int) :
    ReadsDocument k (readExponent negative significand start) := by
  refine Reads.peek.bind fun next _ => ?_
  split
  · split
    · exact Reads.skip.bind fun _ _ => reads_readPower _ _ _ _
    · split
      · exact Reads.skip.bind fun _ _ => reads_readPower _ _ _ _
      · exact reads_readPower _ _ _ _
  · exact reads_readPower _ _ _ _

theorem reads_readScale (negative : Bool) (significand : Nat) (exponent : Int) :
    ReadsDocument k (readScale negative significand exponent) := by
  refine Reads.peek.bind fun next _ => ?_
  split
  · split
    · exact Reads.skip.bind fun _ _ => reads_readExponent _ _ _
    · exact reads_scaled _ _ _
  · exact reads_scaled _ _ _

theorem reads_readFraction (negative : Bool) (significand : Nat) (start : Int) :
    ReadsDocument k (readFraction negative significand start) := by
  refine ReadsRound.repeatDigits fun (significand, places) => Reads.peek.bind fun next _ => ?_
  split
  · split
    · split
      · exact Reads.skip.bind fun _ _ => ReadsRound.again trivial
      · exact (Reads.dropWhile isDigit).bind fun _ _ => ReadsRound.answer (reads_readScale _ _ _)
    · split
      · exact Reads.failNext _
      · exact ReadsRound.answer (reads_readScale _ _ _)
  · split
    · exact Reads.failNext _
    · exact ReadsRound.answer (reads_readScale _ _ _)

theorem reads_readLong (negative : Bool) (significand : Nat) :
    ReadsDocument k (readLong negative significand) := by
  refine ReadsRound.repeatDigits fun exponent => Reads.peek.bind fun next _ => ?_
  split
  · split
    · exact Reads.skip.bind fun _ _ => ReadsRound.again trivial
    · split
      · exact Reads.skip.bind fun _ _ => ReadsRound.answer (reads_readFraction _ _ _)
      · exact ReadsRound.answer (reads_readScale _ _ _)
  · exact ReadsRound.answer (reads_scaled _ _ _)

theorem reads_readTail (negative : Bool) (significand : Nat) :
    ReadsDocument k (readTail negative significand) := by
  have hinteger : ReadsDocument k (pure (signedInteger negative significand)) :=
    Reads.pure (Nat.le_refl 0) fun _ => written_signedInteger _ _
  refine Reads.peek.bind fun next _ => ?_
  split
  · split
    · exact Reads.skip.bind fun _ _ => reads_readFraction _ _ _
    · split
      · exact Reads.skip.bind fun _ _ => reads_readExponent _ _ _
      · exact hinteger
  · exact hinteger

theorem reads_readNumber (negative : Bool) : ReadsDocument k (readNumber negative) := by
  refine Reads.bind (Reads.next.drop fun _ => Nat.zero_le _) fun next _ => ?_
  split
  · exact Reads.failHere _
  · split
    · refine Reads.peek.bind fun next _ => ?_
      split
      · split
        · exact Reads.failNext _
        · exact reads_readTail _ _
      · exact reads_readTail _ _
    · split
      · refine ReadsRound.repeatDigits fun significand => Reads.peek.bind fun next _ => ?_
        split
        · split
          · split
            · exact Reads.skip.bind fun _ _ => ReadsRound.again trivial
            · exact ReadsRound.answer (reads_readLong _ _)
          · exact ReadsRound.answer (reads_readTail _ _)
        · exact ReadsRound.answer (reads_readTail _ _)
      · exact Reads.failHere _

/-! ## Strings -/

section Strings

variable {held : Nat}

theorem reads_readHex : Reads k held readHex (fun _ => held + 4) fun _ => True := by
  intro left value rest hk hok
  unfold readHex at hok
  split at hok
  · split at hok
    · obtain ⟨-, rfl⟩ := EStateM.Result.ok.inj hok
      simp only [List.length_cons] at hk
      exact ⟨Nat.le_trans (Nat.le_of_eq (Nat.add_right_comm _ _ _)) hk, trivial⟩
    · exact nomatch hok
  · exact nomatch hok

theorem reads_expectInEscape (expected : UInt8) :
    Reads k held (expectInEscape expected) (fun _ => held) fun _ => True := by
  refine Reads.peek.bind fun next _ => ?_
  split
  · exact Reads.failHere _
  · refine Reads.skip.bind fun _ _ => ?_
    split
    · exact Reads.pure (Nat.le_refl _) fun _ => trivial
    · exact Reads.failHere _

/-- A character of four bytes takes more than the four digits of one escape. -/
theorem reads_readUnicode : Reads k held readUnicode (fun _ => held + 4) fun _ => True := by
  refine reads_readHex.bind fun first _ => ?_
  split
  · exact Reads.failHere _
  · split
    · exact Reads.pure (Nat.le_refl _) fun _ => trivial
    · refine (reads_expectInEscape _).bind fun _ _ => (reads_expectInEscape _).bind fun _ _ => ?_
      refine reads_readHex.bind fun second _ => ?_
      split
      · exact Reads.failHere _
      · exact Reads.pure (Nat.le_add_right _ _) fun _ => trivial

theorem reads_readEscape :
    Reads k held readEscape (fun bytes => held + bytes.length) fun _ => True := by
  have hone (b : UInt8) : Reads k (held + 1) (pure [b]) (fun bytes => held + bytes.length)
      fun _ => True := Reads.pure (Nat.le_refl _) fun _ => trivial
  refine Reads.next.bind fun next _ => ?_
  split
  · exact Reads.failHere _
  · iterate 6
      split
      · exact hone _
    split
    · refine reads_readUnicode.bind fun c _ => Reads.pure ?_ fun _ => trivial
      have hsize := c.utf8Size_le_four
      rw [String.length_utf8EncodeChar]
      omega
    · exact Reads.failHere _

theorem reads_finishString (gathered : List UInt8) :
    Reads k gathered.length (finishString gathered) (fun _ => 0)
      fun s => s.utf8ByteSize ≤ k := by
  intro left s rest hk hok
  have hwidth := Text.width_decode gathered.reverse
  unfold finishString at hok
  split at hok
  · next chars heq =>
    obtain ⟨rfl, rfl⟩ := EStateM.Result.ok.inj hok
    rw [heq, List.length_reverse] at hwidth
    have hfits : Text.width chars ≤ k :=
      Nat.le_trans hwidth (Nat.le_trans (Nat.le_add_right _ _) hk)
    exact ⟨Nat.le_trans (Nat.add_le_add_right (Nat.zero_le _) _) hk, hfits⟩
  · exact nomatch hok

/-- The bytes gathered are in hand. -/
theorem reads_readString :
    Reads k 0 readString (fun _ => 0) fun s => s.utf8ByteSize ≤ k := by
  have hseed : ([] : List UInt8).length = 0 := rfl
  rw [← hseed]
  refine Reads.repeatUntil List.length (fun _ => True) (fun gathered _ => ?_) trivial
  refine Reads.next.bind fun next _ => ?_
  split
  · exact Reads.failHere _
  · split
    · exact ((reads_finishString gathered).hold (Nat.le_succ _)).map (fun _ => Nat.le_refl 0)
        fun _ => id
    · split
      · refine (reads_readEscape.hold (Nat.le_succ _)).bind fun bytes _ =>
          Reads.pure ?_ fun _ => trivial
        simp only [Sum.elim_inl, List.length_append, List.length_reverse]
        exact Nat.le_of_eq (Nat.add_comm _ _)
      · split
        · exact Reads.failHere _
        · exact Reads.pure (Nat.le_refl _) fun _ => trivial

end Strings

/-! ## Documents -/

/-- The members so far, in the order of their keys. -/
def WrittenMembers (k : Nat) (members : List (String × Json)) : Prop :=
  Ascending members ∧ ∀ member ∈ members, member.2.Written k

theorem reads_readWord (word : String) {value : Json} (hv : value.Written k) :
    ReadsDocument k (readWord word value) := by
  have hgo (expected : List UInt8) : ReadsDocument k (readWord.go value expected) := by
    induction expected with
    | nil => exact Reads.pure (Nat.le_refl 0) fun _ => hv
    | cons b rest ih =>
        refine Reads.bind (Reads.next.drop fun _ => Nat.zero_le _) fun next _ => ?_
        split
        · exact Reads.failHere _
        · split
          · exact ih
          · exact Reads.failHere _
  exact hgo _

section Nested

variable {value : Reading Json} (hvalue : ReadsDocument k value)

include hvalue

theorem reads_readList : ReadsDocument k (readList value) := by
  refine ReadsRound.repeatUntil (I := fun items => ∀ item ∈ items, item.Written k)
    (fun _ h => nomatch h) fun items hitems => ?_
  have hmore : ReadsRound k (fun items => ∀ item ∈ items, item.Written k)
      (do let item ← value; pure (.inl (item :: items))) :=
    Reads.bind hvalue fun item hitem => ReadsRound.again (List.forall_mem_cons.2 ⟨hitem, hitems⟩)
  have hdone : (Json.list items.reverse).Written k :=
    .list fun item h => hitems item (List.mem_reverse.1 h)
  refine Reads.peekToken.bind fun next _ => ?_
  split
  · exact Reads.failNext _
  split
  · exact Reads.skip.bind fun _ _ => ReadsRound.done hdone
  split
  · next hempty =>
    obtain rfl := List.isEmpty_iff.1 hempty
    exact hmore
  split
  · refine Reads.skip.bind fun _ _ => Reads.peekToken.bind fun next _ => ?_
    split
    · exact Reads.failNext _
    · split
      · exact Reads.failNext _
      · exact hmore
  · exact Reads.failNext _

theorem reads_readMember :
    Reads k 0 (readMember value) (fun _ => 0) fun member => member.2.Written k := by
  refine Reads.skip.bind fun _ _ => reads_readString.bind fun key _ => ?_
  refine Reads.peekToken.bind fun next _ => ?_
  split
  · exact Reads.failNext _
  · split
    · refine Reads.skip.bind fun _ _ => Reads.bind hvalue fun member hmember => ?_
      exact Reads.pure (Nat.le_refl 0) fun _ => hmember
    · exact Reads.failNext _

theorem reads_readObject : ReadsDocument k (readObject value) := by
  refine ReadsRound.repeatUntil (I := WrittenMembers k) ⟨List.Pairwise.nil, fun _ h => nomatch h⟩
    fun members hmembers => ?_
  have hmore (member : String × Json) (h : member.2.Written k) :
      ReadsRound k (WrittenMembers k) (pure (.inl (insert member.1 member.2 members))) := by
    refine ReadsRound.again ⟨ascending_insert hmembers.1 _ _, fun other hother => ?_⟩
    rcases mem_insert hother with rfl | hother
    · exact h
    · exact hmembers.2 other hother
  refine Reads.peekToken.bind fun next _ => ?_
  split
  · exact Reads.failNext _
  split
  · exact Reads.skip.bind fun _ _ => ReadsRound.done (.object hmembers.1 hmembers.2)
  split
  · split
    · exact (reads_readMember hvalue).bind hmore
    · exact Reads.failNext _
  split
  · refine Reads.skip.bind fun _ _ => Reads.peekToken.bind fun next _ => ?_
    split
    · exact Reads.failNext _
    split
    · exact (reads_readMember hvalue).bind hmore
    split
    · exact Reads.failNext _
    · exact Reads.failNext _
  · exact Reads.failNext _

end Nested

theorem reads_readNested {inner : Option (Reading Json)}
    (hinner : ∀ value ∈ inner, ReadsDocument k value) : ReadsDocument k (readNested inner) := by
  refine Reads.peekToken.bind fun next _ => ?_
  split
  · exact Reads.failNext _
  split
  · exact Reads.skip.bind fun _ _ => reads_readWord _ .null
  split
  · exact Reads.skip.bind fun _ _ => reads_readWord _ .bool
  split
  · exact Reads.skip.bind fun _ _ => reads_readWord _ .bool
  split
  · exact Reads.skip.bind fun _ _ => reads_readNumber _
  split
  · exact reads_readNumber _
  split
  · exact Reads.skip.bind fun _ _ => reads_readString.map (fun _ => Nat.le_refl 0) fun _ => .text
  split
  · cases inner with
    | none => exact Reads.failNext _
    | some value => exact Reads.skip.bind fun _ _ => reads_readList (hinner value rfl)
  split
  · cases inner with
    | none => exact Reads.failNext _
    | some value => exact Reads.skip.bind fun _ _ => reads_readObject (hinner value rfl)
  · exact Reads.failNext _

theorem reads_readValue (room : Nat) : ReadsDocument k (readValue room) := by
  induction room with
  | zero => exact reads_readNested nofun
  | succ room ih => exact reads_readNested fun _ h => Option.some.inj h ▸ ih

theorem reads_readDocument : ReadsDocument k readDocument := by
  refine Reads.bind (reads_readValue nestingLimit) fun value hvalue => ?_
  refine Reads.peekToken.bind fun next _ => ?_
  split
  · exact Reads.pure (Nat.le_refl 0) fun _ => hvalue
  · exact Reads.failNext _

theorem length_toList (bytes : ByteArray) : bytes.toList.length = bytes.size := by
  have hloop (rest : Nat) : ∀ i found, bytes.size - i = rest →
      (ByteArray.toList.loop bytes i found).length = found.length + rest := by
    induction rest with
    | zero =>
        intro i found hi
        have hend : ¬ i < bytes.size := by omega
        rw [ByteArray.toList.loop.eq_1, if_neg hend, List.length_reverse, Nat.add_zero]
    | succ rest ih =>
        intro i found hi
        have hmore : i < bytes.size := by omega
        rw [ByteArray.toList.loop.eq_1, if_pos hmore, ih (i + 1) _ (by omega), List.length_cons]
        omega
  exact (hloop bytes.size 0 [] rfl).trans (Nat.zero_add _)

theorem written_ofBytes {bytes : List UInt8} {json : Json} (h : ofBytes bytes = .ok json)
    (hbytes : bytes.length ≤ k) : json.Written k := by
  unfold ofBytes at h
  split at h
  · next value rest hok =>
    obtain rfl := Except.ok.inj h
    have hsize : 0 + bytes.length ≤ k := (Nat.zero_add bytes.length).symm ▸ hbytes
    exact (reads_readDocument _ _ _ hsize hok).2
  · exact nomatch h

/-- The strings of a document are no longer than the text that it was read from. -/
theorem fits_ofText {text : String} (htext : text.utf8ByteSize ≤ k) {json : Json}
    (h : ofText text = .ok json) : json.Fits k := by
  have hsize : text.toUTF8.toList.length = text.utf8ByteSize := length_toList text.toUTF8
  exact (written_ofBytes h (hsize ▸ htext)).fits

end Json

end ScriptHost

import Mathlib.Data.List.Forall2
import Mathlib.Data.Nat.Digits.Defs
import ScriptHost.Proofs.Source.Pieces

/-!
A string literal is read whenever its body consists of items, and then for what they stand for.
Every string can be written so.
-/

namespace ScriptHost.Source

/-! ## Numeric escapes -/

def HexDigit (c : Char) (d : Nat) : Prop :=
  d < 16 ∧ (c = d.digitChar ∨ c = d.digitChar.toUpper)

instance (c : Char) (d : Nat) : Decidable (HexDigit c d) :=
  inferInstanceAs (Decidable (d < 16 ∧ (c = d.digitChar ∨ c = d.digitChar.toUpper)))

/-- The digits, the highest of them first, write the number. -/
def HexNumber (digits : List Char) (n : Nat) : Prop :=
  ∃ ds, List.Forall₂ HexDigit digits ds ∧ Nat.ofDigits 16 ds.reverse = n

/-- Four hexadecimal digits, or a plus sign and three, write the character's scalar value. -/
def UnicodeDigits (digits : List Char) (c : Char) : Prop :=
  digits.length = 4 ∧
    (HexNumber digits c.toNat ∨ ∃ rest, digits = '+' :: rest ∧ HexNumber rest c.toNat)

theorem hexValue?_digitChar {d : Nat} (h : d < 16) :
    hexValue? d.digitChar = some d ∧ hexValue? d.digitChar.toUpper = some d := by
  revert d
  decide

theorem hexDigit_of_hexValue? {c : Char} {d : Nat} (h : hexValue? c = some d) : HexDigit c d := by
  have hall : ∀ n < 128, (hexValue? (Char.ofNat n)).all (HexDigit (Char.ofNat n) ·) := by
    decide +kernel
  have hc := hall c.toNat (hexValue?_ascii (Option.isSome_of_eq_some h)).2
  rw [Char.ofNat_toNat, h] at hc
  exact of_decide_eq_true hc

theorem hexDigit_iff {c : Char} {d : Nat} : HexDigit c d ↔ hexValue? c = some d := by
  refine ⟨?_, hexDigit_of_hexValue?⟩
  rintro ⟨hd, rfl | rfl⟩
  · exact (hexValue?_digitChar hd).1
  · exact (hexValue?_digitChar hd).2

theorem exists_digits_cons {c : Char} {rest : List Char} {p : List Nat → Prop} :
    (∃ ds, List.Forall₂ HexDigit (c :: rest) ds ∧ p ds) ↔
      ∃ d, hexValue? c = some d ∧ ∃ ds, List.Forall₂ HexDigit rest ds ∧ p (d :: ds) := by
  constructor
  · rintro ⟨ds, hds, hp⟩
    obtain ⟨d, tail, hd, htail, rfl⟩ := List.forall₂_cons_left_iff.1 hds
    exact ⟨d, hexDigit_iff.1 hd, tail, htail, hp⟩
  · rintro ⟨d, hd, ds, hds, hp⟩
    exact ⟨d :: ds, .cons (hexDigit_iff.2 hd) hds, hp⟩

theorem ofDigits_place (ds : List Nat) (d n : Nat) :
    Nat.ofDigits 16 (ds ++ [d] ++ [n]) = Nat.ofDigits 16 (ds ++ [16 * n + d]) := by
  simp only [List.append_assoc, List.singleton_append, Nat.ofDigits_append, Nat.ofDigits_cons,
    Nat.ofDigits_nil, Nat.mul_zero, Nat.add_zero]
  rw [Nat.add_comm d]

def hexAppend (n : Option Nat) (c : Char) : Option Nat :=
  match n, hexValue? c with
  | some n, some d => some (16 * n + d)
  | _, _ => none

theorem hexNumber?_cons (first : Char) (rest : List Char) :
    hexNumber? (first :: rest) = rest.foldl hexAppend (hexValue? first) :=
  rfl

theorem foldl_hexAppend_none (rest : List Char) : rest.foldl hexAppend none = none := by
  induction rest with
  | nil => rfl
  | cons c rest ih => exact ih

theorem foldl_hexAppend_eq_some_iff (rest : List Char) (start n : Nat) :
    rest.foldl hexAppend (some start) = some n ↔
      ∃ ds, List.Forall₂ HexDigit rest ds ∧ Nat.ofDigits 16 (ds.reverse ++ [start]) = n := by
  induction rest generalizing start with
  | nil => simp
  | cons c rest ih =>
    rw [List.foldl_cons, exists_digits_cons]
    cases hc : hexValue? c with
    | none =>
      have hnext : hexAppend (some start) c = none := by simp [hexAppend, hc]
      simp [hnext, foldl_hexAppend_none]
    | some d =>
      have hnext : hexAppend (some start) c = some (16 * start + d) := by simp [hexAppend, hc]
      rw [hnext, ih]
      simp only [Option.some.injEq, exists_eq_left', List.reverse_cons, ofDigits_place]

theorem hexNumber?_eq_some_iff {digits : List Char} (hne : digits ≠ []) {n : Nat} :
    hexNumber? digits = some n ↔ HexNumber digits n := by
  cases digits with
  | nil => exact absurd rfl hne
  | cons first rest =>
    rw [HexNumber, exists_digits_cons, hexNumber?_cons]
    cases hexValue? first with
    | none => simp [foldl_hexAppend_none]
    | some start => simp [foldl_hexAppend_eq_some_iff]

theorem scalarValue_eq_some_iff {value : Option Nat} {c : Char} :
    (match value with
      | some n => if n.isValidChar then some (Char.ofNat n) else none
      | none => none) = some c ↔ value = some c.toNat := by
  cases value with
  | none => exact iff_of_false nofun nofun
  | some n =>
    dsimp only
    constructor
    · intro h
      by_cases hvalid : n.isValidChar
      · obtain rfl := Option.some.inj ((if_pos hvalid).symm.trans h)
        rw [Char.ofNat, dif_pos hvalid]
        rfl
      · exact nomatch (if_neg hvalid).symm.trans h
    · rintro ⟨⟩
      exact (if_pos c.valid).trans (congrArg some (Char.ofNat_toNat c))

theorem not_hexNumber_plus {rest : List Char} {n : Nat} : ¬ HexNumber ('+' :: rest) n := by
  rw [HexNumber, exists_digits_cons]
  rintro ⟨d, hd, -⟩
  exact nomatch hd

theorem unicodeEscape?_eq_some_iff {digits : List Char} {c : Char} :
    unicodeEscape? digits = some c ↔ UnicodeDigits digits c := by
  unfold unicodeEscape?
  refine scalarValue_eq_some_iff.trans ?_
  split
  · next second third fourth =>
    -- No digit is a plus sign, so the four characters write no number by themselves.
    simp [UnicodeDigits, hexNumber?_eq_some_iff, not_hexNumber_plus]
  · next first second third fourth hplus =>
    have hfirst : first ≠ '+' := fun h => hplus h
    simp [UnicodeDigits, hexNumber?_eq_some_iff, hfirst]
  · next hplus hfour =>
    refine iff_of_false nofun fun h => ?_
    obtain ⟨first, second, third, fourth, rfl⟩ := List.length_eq_four.1 h.1
    exact hfour _ _ _ _ rfl

/-! ## Items -/

theorem lexEscape_of_item {quote : Char} {text : List Char} {meant : Option Char}
    (h : StringItem quote ('\\' :: text) meant) (rest : List Char) (line : Nat) :
    lexEscape (text ++ rest) line = .ok (meant, ⟨rest, line + newlines text⟩) := by
  cases h with
  | plain _ _ hescape => exact absurd rfl hescape
  | lineFeed => rfl
  | tab => rfl
  | carriageReturn => rfl
  | zero => rfl
  | lineBreak => rfl
  | @unicode digits c hdigits =>
    obtain ⟨hlength, hascii⟩ := unicodeEscape?_digits hdigits
    have hline : newlines ('u' :: digits) = 0 := by
      rw [newlines_eq_zero, List.mem_cons, not_or]
      exact ⟨by decide, fun hmem => absurd (hascii _ hmem) (by decide)⟩
    have htake : (digits ++ rest).take 4 = digits := List.take_left' hlength
    have hdrop : (digits ++ rest).drop 4 = rest := List.drop_left' hlength
    rw [hline, List.cons_append, lexEscape, htake, hdigits, hdrop]
    rfl
  | @escaped c hc =>
    simp only [List.mem_cons, List.not_mem_nil, or_false, not_or] at hc
    obtain ⟨hn, ht, hr, h0, hu, hbreak⟩ := hc
    have hline : newlines [c] = 0 := newlines_eq_zero.2 (by simpa using Ne.symm hbreak)
    rw [hline, List.cons_append, List.nil_append, lexEscape]
    · rfl
    all_goals assumption

theorem StringItem.cases_head {quote : Char} {text : List Char} {meant : Option Char}
    (h : StringItem quote text meant) :
    (∃ c, text = [c] ∧ meant = some c ∧ c ≠ quote ∧ c ≠ '\n' ∧ c ≠ '\\') ∨
      ∃ escape, text = '\\' :: escape := by
  cases h with
  | plain hquote hbreak hescape => exact .inl ⟨_, rfl, rfl, hquote, hbreak, hescape⟩
  | _ => exact .inr ⟨_, rfl⟩

theorem lexString_plain {quote c : Char} (hquote : c ≠ quote) (hbreak : c ≠ '\n')
    (hescape : c ≠ '\\') (read rest : List Char) (line : Nat) :
    lexString quote read (c :: rest) line = lexString quote (c :: read) rest line := by
  rw [lexString, if_neg hquote, if_neg hbreak, if_neg hescape]

theorem lexString_escape {quote : Char} (hquote : quote ≠ '\\') {meant : Option Char}
    {cs : List Char} {line : Nat} {next : Cursor} (h : lexEscape cs line = .ok (meant, next))
    (read : List Char) :
    lexString quote read ('\\' :: cs) line =
      lexString quote (meant.toList ++ read) next.chars next.line := by
  rw [lexString, if_neg hquote.symm, if_neg (by decide), if_pos rfl]
  split
  · next hfault => cases h.symm.trans hfault
  · next hok =>
    cases h.symm.trans hok
    rfl

theorem lexString_item {quote : Char} (hquote : quote ≠ '\\') {text : List Char}
    {meant : Option Char} (h : StringItem quote text meant) (read rest : List Char) (line : Nat) :
    lexString quote read (text ++ rest) line =
      lexString quote (meant.toList ++ read) rest (line + newlines text) := by
  rcases h.cases_head with ⟨c, rfl, rfl, hend, hbreak, hescape⟩ | ⟨escape, rfl⟩
  · rw [newlines_eq_zero.2 (by simpa using hbreak.symm)]
    exact lexString_plain hend hbreak hescape read rest line
  · rw [newlines_cons, if_neg (by decide), Nat.add_zero]
    exact lexString_escape hquote (lexEscape_of_item h rest line) read

/-! ## Bodies -/

theorem lexString_of_body {quote : Char} (hquote : quote ≠ '\\') {body value : List Char}
    (h : StringBody quote body value) (read rest : List Char) (line : Nat) :
    lexString quote read (body ++ quote :: rest) line =
      .ok (String.ofList (read.reverse ++ value), ⟨rest, line + newlines body⟩) := by
  induction h generalizing read line with
  | nil =>
    rw [List.nil_append, lexString, if_pos rfl]
    simp
  | @cons text rest' meant value hitem _ ih =>
    rw [List.append_assoc, lexString_item hquote hitem, ih]
    cases meant <;> simp [Nat.add_assoc]

theorem lexString_eq_ok_iff {quote : Char} (hquote : quote ≠ '\\') {text : List Char} {line : Nat}
    {s : String} {next : Cursor} :
    lexString quote [] text line = .ok (s, next) ↔
      ∃ body value, text = body ++ quote :: next.chars ∧ StringBody quote body value ∧
        s = String.ofList value ∧ next.line = line + newlines body := by
  constructor
  · intro h
    exact lexString_body h
  · rintro ⟨body, value, rfl, hbody, rfl, hline⟩
    rw [lexString_of_body hquote hbody, ← hline]
    rfl

/-- Every string has a spelling that is free of numeric escapes. -/
theorem exists_stringBody {quote : Char} (hquote : quote ∉ ['n', 't', 'r', '0', 'u', '\n'])
    (value : List Char) : ∃ body, StringBody quote body value := by
  induction value with
  | nil => exact ⟨[], .nil⟩
  | cons c value ih =>
    obtain ⟨body, hbody⟩ := ih
    obtain ⟨text, hitem⟩ : ∃ text, StringItem quote text (some c) := by
      by_cases hbreak : c = '\n'
      · exact ⟨['\\', 'n'], hbreak ▸ .lineFeed⟩
      by_cases hend : c = quote
      · exact ⟨_, .escaped (hend ▸ hquote)⟩
      by_cases hescape : c = '\\'
      · exact ⟨_, .escaped (hescape ▸ by decide)⟩
      exact ⟨_, .plain hend hbreak hescape⟩
    exact ⟨text ++ body, .cons hitem hbody⟩

/-! ## Tokens -/

theorem lexStep_quote {quote : Char} (hquote : quote = '"' ∨ quote = '\'') (text : List Char)
    (line : Nat) :
    lexStep ⟨quote :: text, line⟩ =
      (lexString quote [] text line).map fun (s, left) =>
        (some ⟨.string s, left.line⟩, left) := by
  rcases hquote with rfl | rfl <;> rfl

theorem tokenizeFrom_step {found : List Token} {c rest : Cursor} {token : Option Token}
    (hne : c.chars ≠ []) (h : lexStep c = .ok (token, rest)) :
    tokenizeFrom found c = tokenizeFrom (token.toList ++ found) rest := by
  rw [tokenizeFrom, dif_neg hne]
  split
  · next hfault => cases h.symm.trans hfault
  · next hok =>
    cases h.symm.trans hok
    rfl

theorem lexStep_quote_eq_ok_iff {quote : Char} (hquote : quote = '"' ∨ quote = '\'')
    {text : List Char} {line : Nat} {token : Option Token} {next : Cursor} :
    lexStep ⟨quote :: text, line⟩ = .ok (token, next) ↔
      ∃ body value, text = body ++ quote :: next.chars ∧ StringBody quote body value ∧
        next.line = line + newlines body ∧
        token = some ⟨.string (String.ofList value), next.line⟩ := by
  have hescape : quote ≠ '\\' := by rcases hquote with rfl | rfl <;> decide
  rw [lexStep_quote hquote]
  constructor
  · intro h
    cases hstring : lexString quote [] text line with
    | error fault =>
      rw [hstring] at h
      exact nomatch h
    | ok found =>
      rw [hstring] at h
      cases h
      obtain ⟨body, value, htext, hbody, hs, hline⟩ := (lexString_eq_ok_iff hescape).1 hstring
      exact ⟨body, value, htext, hbody, hline, by rw [hs]⟩
  · rintro ⟨body, value, htext, hbody, hline, rfl⟩
    rw [(lexString_eq_ok_iff hescape).2 ⟨body, value, htext, hbody, rfl, hline⟩]
    rfl

theorem tokenizeFrom_string {quote : Char} (hquote : quote = '"' ∨ quote = '\'')
    {body value : List Char} (h : StringBody quote body value) (found : List Token)
    (rest : List Char) (line : Nat) :
    tokenizeFrom found ⟨quote :: body ++ quote :: rest, line⟩ =
      tokenizeFrom (⟨.string (String.ofList value), line + newlines body⟩ :: found)
        ⟨rest, line + newlines body⟩ := by
  have hstep : lexStep ⟨quote :: body ++ quote :: rest, line⟩ =
      .ok (some ⟨.string (String.ofList value), line + newlines body⟩,
        ⟨rest, line + newlines body⟩) :=
    (lexStep_quote_eq_ok_iff hquote).2 ⟨body, value, rfl, h, rfl, rfl⟩
  exact tokenizeFrom_step (List.cons_ne_nil _ _) hstep

theorem tokenize_string {quote : Char} (hquote : quote = '"' ∨ quote = '\'') {s : String}
    {body : List Char} (h : StringBody quote body s.toList) :
    tokenize (String.ofList (quote :: body ++ [quote])) =
      .ok [⟨.string s, 1 + newlines body⟩, ⟨.stop, 1 + newlines body⟩] := by
  rw [tokenize, Cursor.start, String.toList_ofList, tokenizeFrom_string hquote h,
    String.ofList_toList, tokenizeFrom, dif_pos rfl]
  rfl

/--
A text behind a quote is read as a string exactly if items and the same quote are at its front, and
then for what the items stand for; the next token is looked for behind that quote. A numeric escape
takes four digits, or a plus sign and three, of a scalar value. Every string has a spelling with
either quote, and is read back from each of them.
-/
theorem strings_decoded {quote : Char} (hquote : quote = '"' ∨ quote = '\'') :
    (∀ text line token next, lexStep ⟨quote :: text, line⟩ = .ok (token, next) ↔
      ∃ body value, text = body ++ quote :: next.chars ∧ StringBody quote body value ∧
        next.line = line + newlines body ∧
        token = some ⟨.string (String.ofList value), next.line⟩) ∧
    (∀ body value, StringBody quote body value → ∀ found rest line,
      tokenizeFrom found ⟨quote :: body ++ quote :: rest, line⟩ =
        tokenizeFrom (⟨.string (String.ofList value), line + newlines body⟩ :: found)
          ⟨rest, line + newlines body⟩) ∧
    (∀ digits c, unicodeEscape? digits = some c ↔ UnicodeDigits digits c) ∧
    ∀ s : String, (∃ body, StringBody quote body s.toList) ∧
      ∀ body, StringBody quote body s.toList →
        tokenize (String.ofList (quote :: body ++ [quote])) =
          .ok [⟨.string s, 1 + newlines body⟩, ⟨.stop, 1 + newlines body⟩] := by
  refine ⟨fun text line token next => lexStep_quote_eq_ok_iff hquote,
    fun body value hbody => tokenizeFrom_string hquote hbody,
    fun digits c => unicodeEscape?_eq_some_iff, fun s => ⟨?_, fun body => tokenize_string hquote⟩⟩
  refine exists_stringBody ?_ s.toList
  rcases hquote with rfl | rfl <;> decide

/-- A plain character, a numeric escape, an escaped quote and an escaped line break. -/
theorem strings_decoded_mixed :
    tokenize "'a\\u0041\\'\\\n'" = .ok [⟨.string "aA'", 2⟩, ⟨.stop, 2⟩] := by
  have hplain : StringItem '\'' ['a'] (some 'a') := .plain (by decide) (by decide) (by decide)
  have hnumeric : StringItem '\'' ['\\', 'u', '0', '0', '4', '1'] (some 'A') :=
    .unicode (by decide)
  have hquote : StringItem '\'' ['\\', '\''] (some '\'') := .escaped (by decide)
  have hbody : StringBody '\'' ("a\\u0041\\'\\\n").toList "aA'".toList :=
    .cons hplain (.cons hnumeric (.cons hquote (.cons .lineBreak .nil)))
  exact ((strings_decoded (.inr rfl)).2.2.2 "aA'").2 _ hbody

end ScriptHost.Source

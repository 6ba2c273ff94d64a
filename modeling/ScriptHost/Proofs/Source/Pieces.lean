import Mathlib.Data.List.Infix
import ScriptHost.Source.Lexer

/-!
A source text is cut into pieces: tokens as they are spelled, and the blanks and comments between
them. Line breaks are counted along the pieces.
-/

namespace ScriptHost.Source

def newlines (text : List Char) : Nat :=
  text.count '\n'

/-! ## Spellings -/

/-- What stands for a character in a string literal, or for nothing where the line goes on. -/
inductive StringItem (quote : Char) : List Char → Option Char → Prop
  | plain {c : Char} : c ≠ quote → c ≠ '\n' → c ≠ '\\' → StringItem quote [c] (some c)
  | lineFeed : StringItem quote ['\\', 'n'] (some '\n')
  | tab : StringItem quote ['\\', 't'] (some '\t')
  | carriageReturn : StringItem quote ['\\', 'r'] (some '\r')
  | zero : StringItem quote ['\\', '0'] (some '\x00')
  | unicode {digits : List Char} {c : Char} :
      unicodeEscape? digits = some c → StringItem quote ('\\' :: 'u' :: digits) (some c)
  | lineBreak : StringItem quote ['\\', '\n'] none
  | escaped {c : Char} :
      c ∉ ['n', 't', 'r', '0', 'u', '\n'] → StringItem quote ['\\', c] (some c)

inductive StringBody (quote : Char) : List Char → List Char → Prop
  | nil : StringBody quote [] []
  | cons {text rest : List Char} {meant : Option Char} {value : List Char} :
      StringItem quote text meant → StringBody quote rest value →
      StringBody quote (text ++ rest) (meant.toList ++ value)

inductive Spells : Lexeme → List Char → Prop
  | name {text : List Char} :
      (∀ c ∈ text, isNamePart c) → Keyword.ofText? (String.ofList text) = none →
      Spells (.name (String.ofList text)) text
  | keyword {text : List Char} {k : Keyword} :
      (∀ c ∈ text, isNamePart c) → Keyword.ofText? (String.ofList text) = some k →
      Spells (.keyword k) text
  | number {text : List Char} {x : Float} :
      (∀ c ∈ text, c.isDigit ∨ c ∈ ['.', 'e', 'E', '+', '-']) →
      Number.readUnsigned? text = some x → Spells (.number x) text
  | string {quote : Char} {body value : List Char} :
      quote = '"' ∨ quote = '\'' → StringBody quote body value →
      Spells (.string (String.ofList value)) (quote :: body ++ [quote])
  | punct {p : Punct} : Spells (.punct p) p.chars

inductive Gap : List Char → Prop
  | blank {c : Char} : Text.isBlank c → Gap [c]
  | line {text : List Char} : '\n' ∉ text → Gap ('/' :: '/' :: text)
  | block {text : List Char} : ¬ ['*', '/'] <:+: text → Gap ('/' :: '*' :: text ++ ['*', '/'])

/-- A token as it is spelled, or what is passed over. -/
structure Piece where
  text : List Char
  token : Option Token

/-- The piece begins on the line given. -/
inductive Piece.Begins (line : Nat) : Piece → Prop
  | gap {text : List Char} : Gap text → Begins line ⟨text, none⟩
  | token {text : List Char} {t : Token} :
      Spells t.lexeme text → t.line = line + newlines text → Begins line ⟨text, some t⟩

@[simp] theorem newlines_nil : newlines [] = 0 :=
  rfl

@[simp] theorem newlines_cons (c : Char) (text : List Char) :
    newlines (c :: text) = newlines text + if c = '\n' then 1 else 0 := by
  simp [newlines, List.count_cons]

@[simp] theorem newlines_append (text rest : List Char) :
    newlines (text ++ rest) = newlines text + newlines rest :=
  List.count_append

theorem newlines_eq_zero {text : List Char} : newlines text = 0 ↔ '\n' ∉ text :=
  List.count_eq_zero

/-- Only string literals go on from line to line. -/
theorem Spells.oneLine {lexeme : Lexeme} {text : List Char} (h : Spells lexeme text)
    (hne : ∀ s, lexeme ≠ .string s) : newlines text = 0 := by
  rw [newlines_eq_zero]
  cases h with
  | name hchars _ => exact fun hmem => absurd (hchars _ hmem) (by decide)
  | keyword hchars _ => exact fun hmem => absurd (hchars _ hmem) (by decide)
  | number hchars _ => exact fun hmem => absurd (hchars _ hmem) (by decide)
  | string _ _ => exact absurd rfl (hne _)
  | @punct p => cases p <;> decide

theorem Spells.ne_stop {lexeme : Lexeme} {text : List Char} (h : Spells lexeme text) :
    lexeme ≠ .stop := by
  rintro rfl
  cases h

/-! ## Strings -/

theorem hexFold_digits (rest : List Char) (start : Option Nat)
    (h : (rest.foldl (fun n c => match n, hexValue? c with
      | some n, some d => some (16 * n + d)
      | _, _ => none) start).isSome) :
    start.isSome ∧ ∀ d ∈ rest, (hexValue? d).isSome := by
  induction rest generalizing start with
  | nil => exact ⟨h, nofun⟩
  | cons d rest ih =>
    obtain ⟨hnext, hrest⟩ := ih _ h
    cases start with
    | none => cases hnext
    | some n =>
      cases hd : hexValue? d with
      | none => simp [hd] at hnext
      | some value => exact ⟨rfl, List.forall_mem_cons.2 ⟨Option.isSome_of_eq_some hd, hrest⟩⟩

theorem hexNumber?_digits {digits : List Char} {n : Nat} (h : hexNumber? digits = some n) :
    ∀ d ∈ digits, (hexValue? d).isSome := by
  cases digits with
  | nil => exact nofun
  | cons first rest =>
    obtain ⟨hfirst, hrest⟩ := hexFold_digits rest (hexValue? first) (Option.isSome_of_eq_some h)
    exact List.forall_mem_cons.2 ⟨hfirst, hrest⟩

theorem hexValue?_ascii {c : Char} (h : (hexValue? c).isSome) : 48 ≤ c.toNat ∧ c.toNat < 128 := by
  unfold hexValue? at h
  split at h
  · next hdigit =>
    have hrange := Char.isDigit_iff_toNat.1 hdigit
    exact ⟨hrange.1, Nat.lt_of_le_of_lt hrange.2 (by decide)⟩
  · split at h
    · next hlow =>
      have hfirst : 'a'.toNat ≤ c.toNat := hlow.1
      have hlast : c.toNat ≤ 'f'.toNat := hlow.2
      exact ⟨Nat.le_trans (by decide) hfirst, Nat.lt_of_le_of_lt hlast (by decide)⟩
    · split at h
      · next hhigh =>
        have hfirst : 'A'.toNat ≤ c.toNat := hhigh.1
        have hlast : c.toNat ≤ 'F'.toNat := hhigh.2
        exact ⟨Nat.le_trans (by decide) hfirst, Nat.lt_of_le_of_lt hlast (by decide)⟩
      · exact nomatch h

/-- The digits of an escape are as many bytes as they are characters, and no line break. -/
theorem unicodeEscape?_digits {digits : List Char} {c : Char}
    (h : unicodeEscape? digits = some c) :
    digits.length = 4 ∧ ∀ d ∈ digits, 32 ≤ d.toNat ∧ d.toNat < 128 := by
  have hascii : ∀ {digits : List Char} {n : Nat}, hexNumber? digits = some n →
      ∀ d ∈ digits, 32 ≤ d.toNat ∧ d.toNat < 128 := fun h d hd =>
    have hd := hexValue?_ascii (hexNumber?_digits h d hd)
    ⟨by omega, hd.2⟩
  unfold unicodeEscape? at h
  dsimp only at h
  split at h
  · next n hvalue =>
    split at hvalue
    · exact ⟨rfl, List.forall_mem_cons.2 ⟨by decide, hascii hvalue⟩⟩
    · exact ⟨rfl, hascii hvalue⟩
    · exact nomatch hvalue
  · exact nomatch h

/-- An escape spells a character, and is as long as the text that it takes. -/
theorem lexEscape_item (quote : Char) {cs : List Char} {line : Nat} {meant : Option Char}
    {next : Cursor} (h : lexEscape cs line = .ok (meant, next)) :
    ∃ text, cs = text ++ next.chars ∧ StringItem quote ('\\' :: text) meant ∧
      next.line = line + newlines text := by
  cases cs with
  | nil => exact nomatch h
  | cons c rest =>
    unfold lexEscape at h
    dsimp only at h
    split at h
    · cases h
      exact ⟨['n'], rfl, .lineFeed, rfl⟩
    · cases h
      exact ⟨['t'], rfl, .tab, rfl⟩
    · cases h
      exact ⟨['r'], rfl, .carriageReturn, rfl⟩
    · cases h
      exact ⟨['0'], rfl, .zero, rfl⟩
    · split at h
      · next c hc =>
        cases h
        have hdigits : newlines ('u' :: rest.take 4) = 0 := by
          rw [newlines_eq_zero, List.mem_cons, not_or]
          exact ⟨by decide, fun hmem =>
            absurd ((unicodeEscape?_digits hc).2 _ hmem) (by decide)⟩
        exact ⟨'u' :: rest.take 4, by simp, .unicode hc, by rw [hdigits]; rfl⟩
      · exact nomatch h
    · cases h
      exact ⟨['\n'], rfl, .lineBreak, rfl⟩
    · next hn ht hr h0 hu hbreak =>
      cases h
      have hone : newlines [c] = 0 := newlines_eq_zero.2 fun hmem =>
        hbreak (List.mem_singleton.1 hmem).symm
      refine ⟨[c], rfl, .escaped ?_, by rw [hone]; rfl⟩
      simp only [List.mem_cons, List.not_mem_nil, or_false, not_or]
      exact ⟨hn, ht, hr, h0, hu, hbreak⟩

theorem lexString_body {quote : Char} {read cs : List Char} {line : Nat} {s : String}
    {next : Cursor} (h : lexString quote read cs line = .ok (s, next)) :
    ∃ body value, cs = body ++ quote :: next.chars ∧ StringBody quote body value ∧
      s = String.ofList (read.reverse ++ value) ∧ next.line = line + newlines body := by
  fun_induction lexString quote read cs line with
  | case1 => cases h
  | case2 =>
    cases h
    exact ⟨[], [], rfl, .nil, by simp, rfl⟩
  | case3 => cases h
  | case4 => cases h
  | case5 read line rest meant after hescape _ _ ih =>
    obtain ⟨body, value, hbody, hvalue, hs, hline⟩ := ih h
    obtain ⟨text, htext, hitem, hline'⟩ := lexEscape_item quote hescape
    refine ⟨'\\' :: text ++ body, meant.toList ++ value, ?_, .cons hitem hvalue, ?_, ?_⟩
    · rw [htext, hbody]
      simp
    · rw [hs]
      cases meant <;> simp
    · rw [hline, hline']
      simp
      omega
  | case6 read line c rest hquote hbreak hescape ih =>
    obtain ⟨body, value, hbody, hvalue, hs, hline⟩ := ih h
    refine ⟨[c] ++ body, (some c).toList ++ value, ?_,
      .cons (.plain hquote hbreak hescape) hvalue, ?_, ?_⟩
    · rw [hbody]
      rfl
    · rw [hs]
      simp
    · rw [hline]
      simp [hbreak]

/-! ## Gaps -/

theorem skipBlockComment_text {cs : List Char} {line : Nat} {next : Cursor}
    (h : skipBlockComment cs line = .ok next) :
    ∃ text, cs = text ++ '*' :: '/' :: next.chars ∧ ¬ ['*', '/'] <:+: text ∧
      next.line = line + newlines text := by
  fun_induction skipBlockComment cs line with
  | case1 => cases h
  | case2 =>
    cases h
    exact ⟨[], rfl, by simp, rfl⟩
  | case3 c rest line hopen ih =>
    obtain ⟨text, rfl, hinfix, hline⟩ := ih h
    refine ⟨c :: text, rfl, ?_, ?_⟩
    · rw [List.infix_cons_iff]
      rintro (hfront | hrest)
      · cases text with
        | nil => simp at hfront
        | cons d text =>
          simp only [List.cons_prefix_cons, List.nil_prefix, and_true] at hfront
          exact hopen _ hfront.1.symm (by rw [hfront.2, List.cons_append])
      · exact hinfix hrest
    · rw [hline, newlines_cons]
      split <;> omega

theorem skipBlockComment_fault {cs : List Char} {line : Nat} {fault : Fault}
    (h : skipBlockComment cs line = .error fault) : fault.line = line + newlines cs := by
  fun_induction skipBlockComment cs line with
  | case1 =>
    cases h
    rfl
  | case2 => cases h
  | case3 c rest line hopen ih =>
    rw [ih h, newlines_cons]
    split <;> omega

/-! ## Numbers -/

theorem numberLength_chars (point mark : Bool) (cs : List Char) :
    ∀ c ∈ cs.take (numberLength point mark cs), c.isDigit ∨ c ∈ ['.', 'e', 'E', '+', '-'] := by
  fun_induction numberLength point mark cs with
  | case1 => simp
  | case2 _ _ c rest hdigit ih => exact List.forall_mem_cons.2 ⟨.inl hdigit, ih⟩
  | case3 _ _ c rest _ hpoint ih => exact List.forall_mem_cons.2 ⟨.inr (by simp [hpoint.1]), ih⟩
  | case4 _ _ c _ _ hmark sign rest hsign ih =>
    refine List.forall_mem_cons.2 ⟨.inr ?_, List.forall_mem_cons.2 ⟨.inr ?_, ih⟩⟩
    · rcases hmark.1 with h | h <;> simp [h]
    · rcases hsign with h | h <;> simp [h]
  | case5 _ _ c _ _ hmark sign rest _ ih =>
    refine List.forall_mem_cons.2 ⟨.inr ?_, ih⟩
    rcases hmark.1 with h | h <;> simp [h]
  | case6 _ _ c _ _ hmark =>
    refine List.forall_mem_cons.2 ⟨.inr ?_, by simp⟩
    rcases hmark.1 with h | h <;> simp [h]
  | case7 => simp

/-! ## Tokens -/

/-- What is left is behind a token that ends on the line it begins on. -/
def Lexed (c : Cursor) (lexeme : Lexeme) (rest : Cursor) : Prop :=
  ∃ text, c.chars = text ++ rest.chars ∧ rest.line = c.line ∧ Spells lexeme text ∧
    ∀ s, lexeme ≠ .string s

theorem lexName_lexed (c : Cursor) : Lexed c (lexName c).1 (lexName c).2 := by
  have hchars : ∀ d ∈ c.chars.takeWhile isNamePart, isNamePart d :=
    List.all_eq_true.1 List.all_takeWhile
  refine ⟨c.chars.takeWhile isNamePart, List.takeWhile_append_dropWhile.symm, rfl, ?_⟩
  unfold lexName
  dsimp only
  cases hword : Keyword.ofText? (String.ofList (c.chars.takeWhile isNamePart)) with
  | some k => exact ⟨.keyword hchars hword, nofun⟩
  | none => exact ⟨.name hchars hword, nofun⟩

theorem lexNumber_lexed {c rest : Cursor} {lexeme : Lexeme}
    (h : lexNumber c = .ok (lexeme, rest)) : Lexed c lexeme rest := by
  unfold lexNumber at h
  dsimp only at h
  split at h
  · exact nomatch h
  · split at h
    · next x hx =>
      cases h
      exact ⟨_, (List.take_append_drop _ _).symm, rfl, .number (numberLength_chars _ _ _) hx, nofun⟩
    · exact nomatch h

theorem lexNumber_fault {c : Cursor} {fault : Fault} (h : lexNumber c = .error fault) :
    fault.line = c.line := by
  unfold lexNumber at h
  dsimp only at h
  split at h
  · cases h
    rfl
  · split at h
    · exact nomatch h
    · cases h
      rfl

theorem lexPunct_lexed {c rest : Cursor} {lexeme : Lexeme}
    (h : lexPunct c = .ok (lexeme, rest)) : Lexed c lexeme rest := by
  unfold lexPunct at h
  split at h
  · next p hp =>
    cases h
    have hfront : p.chars <+: c.chars := by simpa using List.find?_some hp
    exact ⟨p.chars, List.prefix_append_drop hfront, rfl, .punct, nofun⟩
  · exact nomatch h

theorem lexPunct_fault {c : Cursor} {fault : Fault} (h : lexPunct c = .error fault) :
    fault.line = c.line := by
  unfold lexPunct at h
  split at h
  · exact nomatch h
  · cases h
    rfl

theorem lexEscape_fault {cs : List Char} {line : Nat} {fault : Fault}
    (h : lexEscape cs line = .error fault) : fault.line = line := by
  unfold lexEscape at h
  repeat' split at h
  all_goals cases h
  all_goals rfl

theorem lexString_fault {quote : Char} {read cs : List Char} {line : Nat} {fault : Fault}
    (h : lexString quote read cs line = .error fault) :
    ∃ text rest, cs = text ++ rest ∧ fault.line = line + newlines text := by
  fun_induction lexString quote read cs line with
  | case1 =>
    cases h
    exact ⟨[], [], rfl, rfl⟩
  | case2 => cases h
  | case3 =>
    cases h
    exact ⟨[], _, rfl, rfl⟩
  | case4 read line rest found hescape =>
    cases h
    exact ⟨[], _, rfl, lexEscape_fault hescape⟩
  | case5 read line rest meant after hescape _ _ ih =>
    obtain ⟨text, behind, htext, hline⟩ := ih h
    obtain ⟨escape, hcs, -, hline'⟩ := lexEscape_item quote hescape
    refine ⟨'\\' :: escape ++ text, behind, ?_, ?_⟩
    · rw [hcs, htext]
      simp
    · rw [hline, hline']
      simp
      omega
  | case6 read line c rest _ hbreak _ ih =>
    obtain ⟨text, behind, htext, hline⟩ := ih h
    exact ⟨c :: text, behind, by rw [htext]; rfl, by rw [hline]; simp [hbreak]⟩

/-- The step takes a piece, which the line is counted on by. -/
def Steps (c : Cursor) (token : Option Token) (rest : Cursor) : Prop :=
  ∃ text, c.chars = text ++ rest.chars ∧ rest.line = c.line + newlines text ∧
    Piece.Begins c.line ⟨text, token⟩

theorem Lexed.steps {c rest : Cursor} {lexeme : Lexeme} (h : Lexed c lexeme rest) :
    Steps c (some ⟨lexeme, c.line⟩) rest := by
  obtain ⟨text, htext, hline, hspells, hne⟩ := h
  have hone := hspells.oneLine hne
  exact ⟨text, htext, by rw [hline, hone, Nat.add_zero],
    .token hspells (by rw [hone, Nat.add_zero])⟩

theorem steps_of_map {c rest : Cursor} {token : Option Token}
    {r : Except Fault (Lexeme × Cursor)} (hr : ∀ lexeme rest, r = .ok (lexeme, rest) →
      Lexed c lexeme rest)
    (h : r.map (fun (lexeme, rest) => (some ⟨lexeme, c.line⟩, rest)) = .ok (token, rest)) :
    Steps c token rest := by
  cases r with
  | error fault => exact nomatch h
  | ok found =>
    cases h
    exact (hr _ _ rfl).steps

theorem lexStep_steps {c rest : Cursor} {token : Option Token} (hne : c.chars ≠ [])
    (h : lexStep c = .ok (token, rest)) : Steps c token rest := by
  obtain ⟨chars, line⟩ := c
  unfold lexStep at h
  dsimp only at h hne ⊢
  split at h
  · exact absurd rfl hne
  · next tail =>
    cases h
    exact ⟨['\n'], rfl, rfl, .gap (.blank (by decide))⟩
  · next tail =>
    cases h
    have htext : '\n' ∉ tail.takeWhile (· ≠ '\n') := fun hmem => by
      simpa using List.all_eq_true.1 List.all_takeWhile _ hmem
    refine ⟨'/' :: '/' :: tail.takeWhile (· ≠ '\n'), ?_, ?_, .gap (.line htext)⟩
    · simp [List.takeWhile_append_dropWhile]
    · simpa [newlines_eq_zero] using htext
  · next tail =>
    cases hskip : skipBlockComment tail line with
    | error fault => rw [hskip] at h; exact nomatch h
    | ok next =>
      rw [hskip] at h
      cases h
      obtain ⟨text, rfl, hinfix, hline⟩ := skipBlockComment_text hskip
      exact ⟨'/' :: '*' :: text ++ ['*', '/'], by simp, by simp [hline], .gap (.block hinfix)⟩
  · next first tail hbreak _ _ =>
    have hone : first ≠ '\n' := hbreak
    split at h
    · next hblank =>
      cases h
      exact ⟨[first], rfl, by simp [hone], .gap (.blank hblank)⟩
    · split at h
      · cases h
        exact (lexName_lexed ⟨first :: tail, line⟩).steps
      · split at h
        · exact steps_of_map (c := ⟨first :: tail, line⟩) (fun _ _ => lexNumber_lexed) h
        · split at h
          · exact steps_of_map (c := ⟨first :: tail, line⟩) (fun _ _ => lexNumber_lexed) h
          · split at h
            · next hquote =>
              cases hstring : lexString first [] tail line with
              | error fault => rw [hstring] at h; exact nomatch h
              | ok r =>
                rw [hstring] at h
                cases h
                obtain ⟨body, value, rfl, hvalue, hs, hline⟩ := lexString_body hstring
                have hcount : r.2.line = line + newlines (first :: body ++ [first]) := by
                  simp [hline, hone]
                refine ⟨first :: body ++ [first], by simp, hcount, .token ?_ hcount⟩
                rw [hs]
                exact .string hquote hvalue
            · exact steps_of_map (c := ⟨first :: tail, line⟩) (fun _ _ => lexPunct_lexed) h

/-- A fault is found on the last line of the text that comes before it. -/
def Faults (c : Cursor) (fault : Fault) : Prop :=
  ∃ text, text <+: c.chars ∧ fault.line = c.line + newlines text

theorem faults_of_map {c : Cursor} {fault : Fault} {α β : Type} {r : Except Fault α} {f : α → β}
    (hr : ∀ fault, r = .error fault → Faults c fault) (h : r.map f = .error fault) :
    Faults c fault := by
  cases r with
  | error fault =>
    cases h
    exact hr _ rfl
  | ok found => exact nomatch h

theorem lexStep_faults {c : Cursor} {fault : Fault} (h : lexStep c = .error fault) :
    Faults c fault := by
  obtain ⟨chars, line⟩ := c
  unfold lexStep at h
  dsimp only at h
  split at h
  · exact nomatch h
  · exact nomatch h
  · exact nomatch h
  · next tail =>
    refine faults_of_map (fun fault hskip => ?_) h
    exact ⟨'/' :: '*' :: tail, List.prefix_rfl, by simp [skipBlockComment_fault hskip]⟩
  · next first tail hbreak _ _ =>
    have hone : first ≠ '\n' := hbreak
    have hhere : ∀ {fault : Fault}, fault.line = line → Faults ⟨first :: tail, line⟩ fault :=
      fun hline => ⟨[], List.nil_prefix, hline⟩
    split at h
    · exact nomatch h
    · split at h
      · exact nomatch h
      · split at h
        · exact faults_of_map (fun _ hnumber => hhere (lexNumber_fault hnumber)) h
        · split at h
          · exact faults_of_map (fun _ hnumber => hhere (lexNumber_fault hnumber)) h
          · split at h
            · refine faults_of_map (fun fault hstring => ?_) h
              obtain ⟨text, rest, rfl, hline⟩ := lexString_fault hstring
              exact ⟨first :: text, List.prefix_append (first :: text) rest, by simp [hline, hone]⟩
            · exact faults_of_map (fun _ hpunct => hhere (lexPunct_fault hpunct)) h

/-! ## Whole texts -/

/-- The pieces make up the text. Each begins on the line that those before it have come to. -/
structure Cut (line : Nat) (text : List Char) (pieces : List Piece) : Prop where
  text : pieces.flatMap Piece.text = text
  begins : ∀ before piece after, pieces = before ++ piece :: after →
    piece.Begins (line + newlines (before.flatMap Piece.text))

theorem Cut.nil {line : Nat} : Cut line [] [] :=
  ⟨rfl, fun before piece after h => by simp at h⟩

theorem Cut.cons {line : Nat} {text rest : List Char} {token : Option Token} {pieces : List Piece}
    (hpiece : Piece.Begins line ⟨text, token⟩) (h : Cut (line + newlines text) rest pieces) :
    Cut line (text ++ rest) (⟨text, token⟩ :: pieces) := by
  refine ⟨by simp [h.text], fun before piece after hsplit => ?_⟩
  cases before with
  | nil =>
    obtain ⟨rfl, rfl⟩ := List.cons.inj hsplit
    exact hpiece
  | cons first before =>
    obtain ⟨rfl, hrest⟩ := List.cons.inj hsplit
    have hbegins := h.begins before piece after hrest
    rw [Nat.add_assoc, ← newlines_append] at hbegins
    exact hbegins

theorem tokenizeFrom_cut {found tokens : List Token} {c : Cursor}
    (h : tokenizeFrom found c = .ok tokens) :
    ∃ pieces, Cut c.line c.chars pieces ∧ tokens =
      found.reverse ++ pieces.filterMap Piece.token ++ [⟨.stop, c.line + newlines c.chars⟩] := by
  fun_induction tokenizeFrom found c with
  | case1 found c hnil =>
    cases h
    refine ⟨[], hnil ▸ .nil, ?_⟩
    simp [hnil]
  | case2 => cases h
  | case3 found c hne token rest hstep ih =>
    obtain ⟨pieces, hcut, htokens⟩ := ih h
    obtain ⟨text, htext, hline, hpiece⟩ := lexStep_steps hne hstep
    rw [hline] at hcut htokens
    refine ⟨⟨text, token⟩ :: pieces, htext ▸ hcut.cons hpiece, ?_⟩
    rw [htokens, htext, newlines_append, Nat.add_assoc]
    cases token <;> simp

theorem tokenizeFrom_faults {found : List Token} {c : Cursor} {fault : Fault}
    (h : tokenizeFrom found c = .error fault) : Faults c fault := by
  fun_induction tokenizeFrom found c with
  | case1 => cases h
  | case2 found c hne fault' hstep =>
    cases h
    exact lexStep_faults hstep
  | case3 found c hne token rest hstep ih =>
    obtain ⟨behind, hbehind, hfault⟩ := ih h
    obtain ⟨text, htext, hline, -⟩ := lexStep_steps hne hstep
    refine ⟨text ++ behind, ?_, ?_⟩
    · rw [htext]
      exact (List.prefix_append_right_inj text).2 hbehind
    · rw [hfault, hline, newlines_append, Nat.add_assoc]

theorem tokenize_cut {source : String} {tokens : List Token} (h : tokenize source = .ok tokens) :
    ∃ pieces, Cut 1 source.toList pieces ∧
      tokens = pieces.filterMap Piece.token ++ [⟨.stop, 1 + newlines source.toList⟩] :=
  tokenizeFrom_cut h

theorem tokenize_faults {source : String} {fault : Fault} (h : tokenize source = .error fault) :
    ∃ text, text <+: source.toList ∧ fault.line = 1 + newlines text :=
  tokenizeFrom_faults h

end ScriptHost.Source

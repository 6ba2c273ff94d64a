import ScriptHost.Number.Reading
import ScriptHost.Source.Fault

/-!
A source text cut into tokens. Blanks and comments are passed over. A token counts for the line it
ends on, which for all but a string with an escaped line break is the line it begins on.
-/

namespace ScriptHost.Source

/-- What is left of a source text, and the line it goes on with. -/
structure Cursor where
  chars : List Char
  line : Nat
  deriving DecidableEq, Repr

namespace Cursor

def start (source : String) : Cursor :=
  ⟨source.toList, 1⟩

def drop (c : Cursor) (n : Nat) : Cursor :=
  ⟨c.chars.drop n, c.line⟩

def fault (c : Cursor) (cause : Cause) : Fault :=
  ⟨cause, c.line⟩

end Cursor

def isNameStart (c : Char) : Bool :=
  c.isAlpha || c = '_' || c = '$'

def isNamePart (c : Char) : Bool :=
  c.isAlphanum || c = '_' || c = '$'

/-! ## Comments -/

def skipBlockComment : List Char → Nat → Except Fault Cursor
  | [], line => .error ⟨.unterminatedComment, line⟩
  | '*' :: '/' :: rest, line => .ok ⟨rest, line⟩
  | c :: rest, line => skipBlockComment rest (if c = '\n' then line + 1 else line)

theorem skipBlockComment_length {cs : List Char} {line : Nat} {c : Cursor}
    (h : skipBlockComment cs line = .ok c) : c.chars.length < cs.length := by
  fun_induction skipBlockComment cs line with
  | case1 => simp at h
  | case2 line rest =>
    cases h
    simp only [List.length_cons]
    omega
  | case3 line b rest _ ih =>
    have := ih h
    simp only [List.length_cons]
    omega

/-! ## Numbers -/

/-- The length of a number literal: digits, one point among them, and one exponent mark. -/
def numberLength (point mark : Bool) : List Char → Nat
  | [] => 0
  | c :: rest =>
      if c.isDigit then numberLength point mark rest + 1
      else if c = '.' ∧ !point ∧ !mark then numberLength true mark rest + 1
      else if (c = 'e' ∨ c = 'E') ∧ !mark then
        match rest with
        | sign :: digits =>
            if sign = '+' ∨ sign = '-' then numberLength point true digits + 2
            else numberLength point true (sign :: digits) + 1
        | [] => 1
      else 0

def lexNumber (c : Cursor) : Except Fault (Lexeme × Cursor) :=
  let length := numberLength false false c.chars
  let rest := c.drop length
  if rest.chars.head?.any (fun next => next.isAlpha || next = '_') then
    .error (c.fault .badToken)
  else
    let literal := c.chars.take length
    match Number.readUnsigned? literal with
    | some x => .ok (.number x, rest)
    | none => .error (c.fault (.badNumber (String.ofList literal)))

/-! ## Strings -/

def hexValue? (c : Char) : Option Nat :=
  if c.isDigit then some (c.toNat - '0'.toNat)
  else if 'a' ≤ c ∧ c ≤ 'f' then some (c.toNat - 'a'.toNat + 10)
  else if 'A' ≤ c ∧ c ≤ 'F' then some (c.toNat - 'A'.toNat + 10)
  else none

def hexNumber? : List Char → Option Nat
  | [] => none
  | first :: rest =>
      rest.foldl (fun n c => match n, hexValue? c with
        | some n, some d => some (16 * n + d)
        | _, _ => none) (hexValue? first)

/-- Four hexadecimal digits, the first of which a plus sign may replace. -/
def unicodeEscape? (digits : List Char) : Option Char :=
  let value := match digits with
    | ['+', b, c, d] => hexNumber? [b, c, d]
    | [a, b, c, d] => hexNumber? [a, b, c, d]
    | _ => none
  match value with
  | some n => if n.isValidChar then some (Char.ofNat n) else none
  | none => none

/-- Behind a backslash: the character meant, if any, and what is left. -/
def lexEscape : List Char → Nat → Except Fault (Option Char × Cursor)
  | [], line => .error ⟨.badToken, line⟩
  | c :: rest, line =>
      match c with
      | 'n' => .ok (some '\n', ⟨rest, line⟩)
      | 't' => .ok (some '\t', ⟨rest, line⟩)
      | 'r' => .ok (some '\r', ⟨rest, line⟩)
      | '0' => .ok (some '\x00', ⟨rest, line⟩)
      | 'u' =>
          match unicodeEscape? (rest.take 4) with
          | some meant => .ok (some meant, ⟨rest.drop 4, line⟩)
          | none => .error ⟨.badUnicodeEscape, line⟩
      | '\n' => .ok (none, ⟨rest, line + 1⟩)
      | other => .ok (some other, ⟨rest, line⟩)

theorem lexEscape_length {cs : List Char} {line : Nat} {r : Option Char × Cursor}
    (h : lexEscape cs line = .ok r) : r.2.chars.length < cs.length := by
  unfold lexEscape at h
  repeat' split at h
  all_goals simp at h
  all_goals
    subst h
    simp only [List.length_cons, List.length_drop]
    omega

/-- Behind the opening quote; the characters read so far are last first. -/
def lexString (quote : Char) (read : List Char) (cs : List Char) (line : Nat) :
    Except Fault (String × Cursor) :=
  match cs with
  | [] => .error ⟨.badToken, line⟩
  | c :: rest =>
      if c = quote then .ok (String.ofList read.reverse, ⟨rest, line⟩)
      else if c = '\n' then .error ⟨.badToken, line⟩
      else if c = '\\' then
        match _h : lexEscape rest line with
        | .error fault => .error fault
        | .ok (meant, next) => lexString quote (meant.toList ++ read) next.chars next.line
      else lexString quote (c :: read) rest line
termination_by cs.length
decreasing_by
  · have := lexEscape_length (by assumption)
    simp at this ⊢
    omega
  · simp

theorem lexString_length {quote : Char} {read cs : List Char} {line : Nat} {r : String × Cursor}
    (h : lexString quote read cs line = .ok r) : r.2.chars.length < cs.length := by
  fun_induction lexString quote read cs line with
  | case1 => simp at h
  | case2 => simp at h; subst h; simp
  | case3 => simp at h
  | case4 => simp at h
  | case5 read line rest _ _ meant next _ ih =>
      have := ih h
      have := lexEscape_length (by assumption)
      simp at this ⊢
      omega
  | case6 read line c rest _ _ _ ih => have := ih h; simp; omega

/-! ## Tokens -/

def lexName (c : Cursor) : Lexeme × Cursor :=
  let word := String.ofList (c.chars.takeWhile isNamePart)
  let lexeme := match Keyword.ofText? word with
    | some k => .keyword k
    | none => .name word
  (lexeme, ⟨c.chars.dropWhile isNamePart, c.line⟩)

def lexPunct (c : Cursor) : Except Fault (Lexeme × Cursor) :=
  match Punct.all.find? (fun p => p.chars.isPrefixOf c.chars) with
  | some p => .ok (.punct p, c.drop p.chars.length)
  | none => .error (c.fault (match c.chars with
      | next :: _ => .badCharacter next
      | [] => .badToken))

/-- A token or nothing, and what is left behind it; at the end of the text, nothing is left. -/
def lexStep (c : Cursor) : Except Fault (Option Token × Cursor) :=
  let token := fun (lexeme, rest) => (some ⟨lexeme, c.line⟩, rest)
  match c.chars with
  | [] => .ok (none, c)
  | '\n' :: rest => .ok (none, ⟨rest, c.line + 1⟩)
  | '/' :: '/' :: rest => .ok (none, ⟨rest.dropWhile (· ≠ '\n'), c.line⟩)
  | '/' :: '*' :: rest => (skipBlockComment rest c.line).map (none, ·)
  | first :: rest =>
      if Text.isBlank first then .ok (none, ⟨rest, c.line⟩)
      else if isNameStart first then .ok (token (lexName c))
      else if first.isDigit then (lexNumber c).map token
      else if first = '.' ∧ rest.head?.any Char.isDigit then (lexNumber c).map token
      else if first = '"' ∨ first = '\'' then
        (lexString first [] rest c.line).map fun (s, left) => (some ⟨.string s, left.line⟩, left)
      else (lexPunct c).map token

theorem numberLength_pos {c : Char} {rest : List Char} (h : c.isDigit = true ∨ c = '.') :
    0 < numberLength false false (c :: rest) := by
  unfold numberLength
  rcases h with h | h
  · rw [if_pos h]; omega
  · subst h
    have : Char.isDigit '.' = false := by decide
    simp [this]

theorem drop_length {c : Cursor} {n : Nat} (hn : 0 < n) (hc : c.chars ≠ []) :
    (c.drop n).chars.length < c.chars.length := by
  have := List.length_pos_iff.2 hc
  simp [Cursor.drop]
  omega

theorem lexNumber_length {c : Cursor} {r : Lexeme × Cursor}
    (hn : 0 < numberLength false false c.chars) (hc : c.chars ≠ [])
    (h : lexNumber c = .ok r) : r.2.chars.length < c.chars.length := by
  have hd := drop_length hn hc
  unfold lexNumber at h
  simp only at h
  repeat' split at h
  all_goals simp at h
  all_goals subst h
  all_goals exact hd

theorem lexPunct_length {c : Cursor} {r : Lexeme × Cursor} (hc : c.chars ≠ [])
    (h : lexPunct c = .ok r) : r.2.chars.length < c.chars.length := by
  unfold lexPunct at h
  split at h
  · next p _ =>
    simp at h
    subst h
    exact drop_length (List.length_pos_iff.2 p.chars_ne_nil) hc
  · simp at h

theorem lexName_length {first : Char} {rest : List Char} {line : Nat}
    (h : isNameStart first = true) :
    (lexName ⟨first :: rest, line⟩).2.chars.length < (first :: rest).length := by
  have hp : isNamePart first = true := by
    simp only [isNameStart, isNamePart, Char.isAlphanum, Bool.or_eq_true] at h ⊢
    grind
  have := (List.dropWhile_suffix isNamePart (l := rest)).length_le
  simp [lexName, hp]
  omega

theorem lexStep_length {c rest : Cursor} {t : Option Token} (hc : c.chars ≠ [])
    (h : lexStep c = .ok (t, rest)) : rest.chars.length < c.chars.length := by
  obtain ⟨chars, line⟩ := c
  unfold lexStep at h
  simp only at h hc
  split at h
  · exact absurd rfl hc
  · simp at h; grind
  · next r =>
    have := (List.dropWhile_suffix (· ≠ '\n') (l := r)).length_le
    simp at h
    grind
  · next r =>
    cases hs : skipBlockComment r line with
    | error e => simp [hs, Except.map] at h
    | ok next =>
      have := skipBlockComment_length hs
      simp [hs, Except.map] at h
      grind
  · next first r _ _ _ =>
    split at h
    · simp at h; grind
    · split at h
      · next hn =>
        have := @lexName_length first r line hn
        simp at h
        grind
      · split at h
        · next hd =>
          cases hs : lexNumber ⟨first :: r, line⟩ with
          | error e => simp [hs, Except.map] at h
          | ok next =>
            have := lexNumber_length (numberLength_pos (.inl hd)) hc hs
            simp [hs, Except.map] at h
            grind
        · split at h
          · next hd =>
            cases hs : lexNumber ⟨first :: r, line⟩ with
            | error e => simp [hs, Except.map] at h
            | ok next =>
              have := lexNumber_length (numberLength_pos (.inr hd.1)) hc hs
              simp [hs, Except.map] at h
              grind
          · split at h
            · cases hs : lexString first [] r line with
              | error e => simp [hs, Except.map] at h
              | ok next =>
                have := lexString_length hs
                simp [hs, Except.map] at h
                grind
            · cases hs : lexPunct ⟨first :: r, line⟩ with
              | error e => simp [hs, Except.map] at h
              | ok next =>
                have := lexPunct_length hc hs
                simp [hs, Except.map] at h
                grind

/-- The tokens behind those found so far, which are last first. -/
def tokenizeFrom (found : List Token) (c : Cursor) : Except Fault (List Token) :=
  if _hc : c.chars = [] then .ok ((⟨.stop, c.line⟩ :: found).reverse)
  else
    match _h : lexStep c with
    | .error fault => .error fault
    | .ok (token, rest) => tokenizeFrom (token.toList ++ found) rest
termination_by c.chars.length
decreasing_by exact lexStep_length (by assumption) (by assumption)

def tokenize (source : String) : Except Fault (List Token) :=
  tokenizeFrom [] (.start source)

end ScriptHost.Source

import ScriptHost.Json.Decimal
import ScriptHost.Json.Fault
import ScriptHost.Json.Tree
import ScriptHost.Text.Utf8

/-!
JSON documents read from bytes.
-/

namespace ScriptHost.Json

/-- Reading takes bytes off the front of those that are left. -/
abbrev Reading := EStateM Stop (List UInt8)

namespace Reading

/-- A fault noticed behind the bytes taken so far. -/
def failHere (cause : Cause) : Reading α :=
  fun left => .error ⟨cause, left.length⟩ left

/-- A fault noticed at the byte that comes next. -/
def failNext (cause : Cause) : Reading α :=
  fun left => .error ⟨cause, left.length - 1⟩ left

def peek : Reading (Option UInt8) :=
  fun left => .ok left.head? left

def skip : Reading Unit :=
  fun left => .ok () left.tail

def next : Reading (Option UInt8) :=
  fun left => .ok left.head? left.tail

/-- The bytes given bound the rounds, one for each and a last one. -/
def repeatAlong (step : σ → Reading (σ ⊕ α)) : List UInt8 → σ → Reading α
  | [], state => do
      match ← step state with
      | .inr result => pure result
      | .inl _ => failHere .valueEnds
  | _ :: bound, state => do
      match ← step state with
      | .inr result => pure result
      | .inl state => repeatAlong step bound state

/-- Repeats a step that takes a byte whenever it does not answer. -/
def repeatUntil (step : σ → Reading (σ ⊕ α)) (seed : σ) : Reading α :=
  fun left => repeatAlong step left seed left

end Reading

open Reading

def code (c : Char) : UInt8 := c.toUInt8

def isSpace (b : UInt8) : Bool :=
  b = 0x20 || b = 0x0a || b = 0x09 || b = 0x0d

def isDigit (b : UInt8) : Bool :=
  0x30 ≤ b && b ≤ 0x39

def digit (b : UInt8) : Nat := b.toNat - 0x30

def hexValue? (b : UInt8) : Option Nat :=
  if isDigit b then some (digit b)
  else if 0x41 ≤ b && b ≤ 0x46 then some (b.toNat - 0x41 + 10)
  else if 0x61 ≤ b && b ≤ 0x66 then some (b.toNat - 0x61 + 10)
  else none

def skipSpace : Reading Unit :=
  fun left => .ok () (left.dropWhile isSpace)

/-- The next byte that is no blank. -/
def peekToken : Reading (Option UInt8) := do
  skipSpace
  peek

def readWord (word : String) (value : Json) : Reading Json :=
  go word.toUTF8.toList
where
  go : List UInt8 → Reading Json
    | [] => pure value
    | expected :: rest => do
        match ← next with
        | none => failHere .valueEnds
        | some b => if b = expected then go rest else failHere .expectedWord

/-! ## Numbers -/

def signedReal (negative : Bool) (x : Float) : Json :=
  .real (if negative then -x else x)

def scaled (negative : Bool) (significand : Nat) (exponent : Int) : Reading Json :=
  match scale? significand exponent with
  | some x => pure (signedReal negative x)
  | none => failHere .numberOutOfRange

def skipDigits : Reading Unit :=
  fun left => .ok () (left.dropWhile isDigit)

def isExponentMark (b : UInt8) : Bool := b = code 'e' || b = code 'E'

/-- Behind the sign of an exponent. -/
def readPower (negative : Bool) (significand : Nat) (start : Int) (down : Bool) :
    Reading Json := do
  match ← next with
  | none => failHere .valueEnds
  | some b =>
      if !isDigit b then failHere .badNumber
      else
        repeatUntil (fun exponent => do
          match ← peek with
          | some b =>
              if isDigit b then do
                skip
                let exponent := exponent * 10 + digit b
                if exponent < exponentLimit then pure (.inl exponent)
                else if significand ≠ 0 ∧ !down then failHere .numberOutOfRange
                else do
                  skipDigits
                  pure (.inr (signedReal negative 0.0))
              else .inr <$> finish exponent
          | none => .inr <$> finish exponent) (digit b)
where
  finish (exponent : Nat) : Reading Json :=
    scaled negative significand
      (if down then max (start - exponent) (-(exponentLimit : Int))
        else min (start + exponent) (exponentLimit - 1))

def readExponent (negative : Bool) (significand : Nat) (start : Int) : Reading Json := do
  match ← peek with
  | some b =>
      if b = code '+' then do
        skip
        readPower negative significand start false
      else if b = code '-' then do
        skip
        readPower negative significand start true
      else readPower negative significand start false
  | none => readPower negative significand start false

def readScale (negative : Bool) (significand : Nat) (exponent : Int) : Reading Json := do
  match ← peek with
  | some b =>
      if isExponentMark b then do
        skip
        readExponent negative significand exponent
      else scaled negative significand exponent
  | none => scaled negative significand exponent

/-- Behind the decimal point; digits that do not fit the word are passed over. -/
def readFraction (negative : Bool) (significand : Nat) (start : Int) : Reading Json :=
  repeatUntil (fun (significand, places) => do
    match ← peek with
    | some b =>
        if isDigit b then
          match appendDigit? significand (digit b) with
          | some significand => do
              skip
              pure (.inl (significand, places + 1))
          | none => do
              skipDigits
              .inr <$> readScale negative significand (start - places)
        else if places = 0 then failNext .badNumber
        else .inr <$> readScale negative significand (start - places)
    | none =>
        if places = 0 then failNext .valueEnds
        else .inr <$> readScale negative significand (start - places)) (significand, (0 : Nat))

/-- The rest of an integer part that does not fit the word. -/
def readLong (negative : Bool) (significand : Nat) : Reading Json :=
  repeatUntil (fun (exponent : Nat) => do
    match ← peek with
    | some b =>
        if isDigit b then do
          skip
          pure (.inl (exponent + 1))
        else if b = code '.' then do
          skip
          .inr <$> readFraction negative significand exponent
        else .inr <$> readScale negative significand exponent
    | none => .inr <$> scaled negative significand exponent) 0

def signedInteger (negative : Bool) (significand : Nat) : Json :=
  if !negative then .integer significand
  else if significand ≠ 0 ∧ 2 * significand ≤ wordLimit then .integer (-(significand : Int))
  else .real (-(Float.ofNat significand))

def readTail (negative : Bool) (significand : Nat) : Reading Json := do
  match ← peek with
  | some b =>
      if b = code '.' then do
        skip
        readFraction negative significand 0
      else if isExponentMark b then do
        skip
        readExponent negative significand 0
      else pure (signedInteger negative significand)
  | none => pure (signedInteger negative significand)

def readNumber (negative : Bool) : Reading Json := do
  match ← next with
  | none => failHere .valueEnds
  | some b =>
      if b = code '0' then do
        match ← peek with
        | some c => if isDigit c then failNext .badNumber else readTail negative 0
        | none => readTail negative 0
      else if isDigit b then
        repeatUntil (fun significand => do
          match ← peek with
          | some c =>
              if isDigit c then
                match appendDigit? significand (digit c) with
                | some significand => do
                    skip
                    pure (.inl significand)
                | none => .inr <$> readLong negative significand
              else .inr <$> readTail negative significand
          | none => .inr <$> readTail negative significand) (digit b)
      else failHere .badNumber

/-! ## Strings -/

def readHex : Reading Nat :=
  fun left =>
    match left with
    | a :: b :: c :: d :: rest =>
        match hexValue? a, hexValue? b, hexValue? c, hexValue? d with
        | some a, some b, some c, some d => .ok (((a * 16 + b) * 16 + c) * 16 + d) rest
        | _, _, _, _ => .error ⟨.badEscape, rest.length⟩ rest
    | _ => .error ⟨.stringEnds, 0⟩ []

def expectInEscape (expected : UInt8) : Reading Unit := do
  match ← peek with
  | none => failHere .stringEnds
  | some b => do
      skip
      if b = expected then pure () else failHere .escapeEnds

/-- Behind the letter of a Unicode escape; a pair of surrogates takes two of them. -/
def readUnicode : Reading Char := do
  let first ← readHex
  if 0xdc00 ≤ first ∧ first ≤ 0xdfff then failHere .loneSurrogate
  else if first < 0xd800 ∨ 0xdbff < first then pure (Char.ofNat first)
  else do
    expectInEscape (code '\\')
    expectInEscape (code 'u')
    let second ← readHex
    if second < 0xdc00 ∨ 0xdfff < second then failHere .loneSurrogate
    else pure (Char.ofNat (0x10000 + (first - 0xd800) * 0x400 + (second - 0xdc00)))

def readEscape : Reading (List UInt8) := do
  match ← next with
  | none => failHere .stringEnds
  | some b =>
      if b = code '"' ∨ b = code '\\' ∨ b = code '/' then pure [b]
      else if b = code 'b' then pure [0x08]
      else if b = code 'f' then pure [0x0c]
      else if b = code 'n' then pure [0x0a]
      else if b = code 'r' then pure [0x0d]
      else if b = code 't' then pure [0x09]
      else if b = code 'u' then do
        let c ← readUnicode
        pure (String.utf8EncodeChar c)
      else failHere .badEscape

/-- The text of the bytes gathered, which are last first. -/
def finishString (gathered : List UInt8) : Reading String :=
  fun left =>
    match Text.decode gathered.reverse with
    | (chars, []) => .ok (String.ofList chars) left
    | (_, invalid) => .error ⟨.badCodePoint, left.length + invalid.length⟩ left

def readString : Reading String :=
  repeatUntil (fun gathered => do
    match ← next with
    | none => failHere .stringEnds
    | some b =>
        if b = code '"' then .inr <$> finishString gathered
        else if b = code '\\' then do
          let bytes ← readEscape
          pure (.inl (bytes.reverse ++ gathered))
        else if b < 0x20 then failHere .controlCharacter
        else pure (.inl (b :: gathered))) []

/-! ## Documents -/

def readList (value : Reading Json) : Reading Json :=
  repeatUntil (fun (items : List Json) => do
    match ← peekToken with
    | none => failNext .listEnds
    | some b =>
        if b = code ']' then do
          skip
          pure (.inr (.list items.reverse))
        else if items.isEmpty then do
          let item ← value
          pure (.inl [item])
        else if b = code ',' then do
          skip
          match ← peekToken with
          | none => failNext .valueEnds
          | some b =>
              if b = code ']' then failNext .trailingComma
              else do
                let item ← value
                pure (.inl (item :: items))
        else failNext .expectedListSeparator) []

def readMember (value : Reading Json) : Reading (String × Json) := do
  skip
  let key ← readString
  match ← peekToken with
  | none => failNext .objectEnds
  | some b =>
      if b = code ':' then do
        skip
        let member ← value
        pure (key, member)
      else failNext .expectedColon

def readObject (value : Reading Json) : Reading Json :=
  repeatUntil (fun (members : List (String × Json)) => do
    match ← peekToken with
    | none => failNext .objectEnds
    | some b =>
        if b = 0x7d then do
          skip
          pure (.inr (.object members))
        else if members.isEmpty then
          if b = code '"' then do
            let (key, member) ← readMember value
            pure (.inl (insert key member members))
          else failNext .keyNotString
        else if b = code ',' then do
          skip
          match ← peekToken with
          | none => failNext .valueEnds
          | some b =>
              if b = code '"' then do
                let (key, member) ← readMember value
                pure (.inl (insert key member members))
              else if b = 0x7d then failNext .trailingComma
              else failNext .keyNotString
        else failNext .expectedObjectSeparator) []

/-- A value whose items and members are read as given, if they may nest any deeper. -/
def readNested (inner : Option (Reading Json)) : Reading Json := do
  match ← peekToken with
  | none => failNext .valueEnds
  | some b =>
      if b = code 'n' then do skip; readWord "ull" .null
      else if b = code 't' then do skip; readWord "rue" (.bool true)
      else if b = code 'f' then do skip; readWord "alse" (.bool false)
      else if b = code '-' then do skip; readNumber true
      else if isDigit b then readNumber false
      else if b = code '"' then do
        skip
        .text <$> readString
      else if b = code '[' then
        match inner with
        | none => failNext .tooDeep
        | some value => do skip; readList value
      else if b = 0x7b then
        match inner with
        | none => failNext .tooDeep
        | some value => do skip; readObject value
      else failNext .expectedValue

/-- A value within which lists and objects nest at most as deeply as given. -/
def readValue : Nat → Reading Json
  | 0 => readNested none
  | room + 1 => readNested (some (readValue room))

def nestingLimit : Nat := 127

def readDocument : Reading Json := do
  let value ← readValue nestingLimit
  match ← peekToken with
  | none => pure value
  | some _ => failNext .trailingCharacters

def ofBytes (bytes : List UInt8) : Except Fault Json :=
  match readDocument bytes with
  | .ok value _ => .ok value
  | .error stop _ => .error (stop.locate bytes)

def ofText (s : String) : Except Fault Json :=
  ofBytes s.toUTF8.toList

end ScriptHost.Json

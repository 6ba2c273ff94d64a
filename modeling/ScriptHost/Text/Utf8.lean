/-!
Bytes read as UTF-8: the characters of the longest valid beginning, and what is left after it.
-/

namespace ScriptHost.Text

def isContinuation (b : UInt8) : Bool := 0x80 ≤ b && b < 0xc0

def tailBits (b : UInt8) : Nat := b.toNat - 0x80

/-- A character value, if it is one that needs at least as many bytes as were used for it. -/
def scalar? (least value : Nat) : Option Char :=
  if least ≤ value ∧ value.isValidChar then some (Char.ofNat value) else none

def decodeChar? : List UInt8 → Option (Char × List UInt8)
  | [] => none
  | a :: rest =>
      if a < 0x80 then some (Char.ofNat a.toNat, rest)
      else if 0xc0 ≤ a && a < 0xe0 then
        match rest with
        | b :: rest =>
            if isContinuation b then
              (scalar? 0x80 ((a.toNat - 0xc0) * 64 + tailBits b)).map (·, rest)
            else none
        | _ => none
      else if 0xe0 ≤ a && a < 0xf0 then
        match rest with
        | b :: c :: rest =>
            if isContinuation b && isContinuation c then
              (scalar? 0x800 (((a.toNat - 0xe0) * 64 + tailBits b) * 64 + tailBits c)).map (·, rest)
            else none
        | _ => none
      else if 0xf0 ≤ a && a < 0xf8 then
        match rest with
        | b :: c :: d :: rest =>
            if isContinuation b && isContinuation c && isContinuation d then
              (scalar? 0x10000
                ((((a.toNat - 0xf0) * 64 + tailBits b) * 64 + tailBits c) * 64 + tailBits d)).map
                (·, rest)
            else none
        | _ => none
      else none

theorem decodeChar?_shorter {bytes rest : List UInt8} {c : Char}
    (h : decodeChar? bytes = some (c, rest)) : rest.length < bytes.length := by
  unfold decodeChar? at h
  repeat' split at h
  all_goals simp at h
  all_goals grind

/-- The characters read, last first, in front of those given, and the bytes that follow them. -/
def decodeFrom (read : List Char) (bytes : List UInt8) : List Char × List UInt8 :=
  match _h : decodeChar? bytes with
  | none => (read, bytes)
  | some (c, rest) => decodeFrom (c :: read) rest
termination_by bytes.length
decreasing_by exact decodeChar?_shorter (by assumption)

def decode (bytes : List UInt8) : List Char × List UInt8 :=
  let (read, rest) := decodeFrom [] bytes
  (read.reverse, rest)

end ScriptHost.Text

import ScriptHost.Json.Tree
import ScriptHost.Number.Print

/-!
JSON documents written without blanks.
-/

namespace ScriptHost.Json

def hexDigit (n : Nat) : Char :=
  Nat.digitChar n

def escape (c : Char) : String :=
  match c with
  | '"' => "\\\""
  | '\\' => "\\\\"
  | '\x08' => "\\b"
  | '\x0c' => "\\f"
  | '\n' => "\\n"
  | '\r' => "\\r"
  | '\t' => "\\t"
  | c =>
      if c.toNat < 0x20 then
        "\\u00" ++ String.ofList [hexDigit (c.toNat / 16), hexDigit (c.toNat % 16)]
      else String.ofList [c]

def plain (c : Char) : Bool :=
  0x20 ≤ c.toNat && c != '"' && c != '\\'

def quoteOnto (out : String) (s : String) : String :=
  (s.toList.foldl (fun out c => if plain c then out.push c else out ++ escape c)
    (out.push '"')).push '"'

mutual

/-- The text so far, with the document written behind it. -/
def writeOnto (out : String) : Json → String
  | .null => out ++ "null"
  | .bool b => out ++ if b then "true" else "false"
  | .integer n => out ++ toString n
  | .real x => out ++ Number.Layout.json.print x
  | .text s => quoteOnto out s
  | .list items => (writeItemsOnto true (out.push '[') items).push ']'
  | .object members => (writeMembersOnto true (out.push '\x7b') members).push '\x7d'

def writeItemsOnto (first : Bool) (out : String) : List Json → String
  | [] => out
  | item :: rest =>
      writeItemsOnto false (writeOnto (if first then out else out.push ',') item) rest

def writeMembersOnto (first : Bool) (out : String) : List (String × Json) → String
  | [] => out
  | (key, value) :: rest =>
      let out := quoteOnto (if first then out else out.push ',') key
      writeMembersOnto false (writeOnto (out.push ':') value) rest

end

def write (j : Json) : String :=
  writeOnto "" j

end ScriptHost.Json

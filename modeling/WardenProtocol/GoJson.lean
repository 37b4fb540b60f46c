import WardenProtocol.GoString

namespace WardenProtocol
set_option autoImplicit true

/-- The number of bytes that follow the first byte of a rune, and the range of the first of them. -/
def acceptRange (b : UInt8) : Option (Nat × UInt8 × UInt8) :=
  if b < 0xC2 then none
  else if b ≤ 0xDF then some (1, 0x80, 0xBF)
  else if b = 0xE0 then some (2, 0xA0, 0xBF)
  else if b = 0xED then some (2, 0x80, 0x9F)
  else if b ≤ 0xEF then some (2, 0x80, 0xBF)
  else if b = 0xF0 then some (3, 0x90, 0xBF)
  else if b ≤ 0xF3 then some (3, 0x80, 0xBF)
  else if b = 0xF4 then some (3, 0x80, 0x8F)
  else none

/-- The bytes of a rune after the first, where they are well formed. -/
def runeTail (b : UInt8) (s : GoString) : Option GoString :=
  match acceptRange b, s with
  | some (n, lo, hi), c :: s =>
    let tail := s.take (n - 1)
    if lo ≤ c ∧ c ≤ hi ∧ tail.length = n - 1 ∧ tail.all fun d => 0x80 ≤ d && d ≤ 0xBF then
      some (c :: tail)
    else none
  | _, _ => none

def jsonHex (n : Nat) : UInt8 := (str "0123456789abcdef").getD n 0

/-- A byte of a string literal below 0x80. The characters of HTML are escaped too. -/
def jsonByte (b : UInt8) : GoString :=
  if b = 0x5C ∨ b = 0x22 then [0x5C, b]
  else if b = 8 then str "\\b"
  else if b = 12 then str "\\f"
  else if b = 10 then str "\\n"
  else if b = 13 then str "\\r"
  else if b = 9 then str "\\t"
  else if b < 0x20 ∨ b = 0x3C ∨ b = 0x3E ∨ b = 0x26 then
    str "\\u00" ++ [jsonHex (b.toNat / 16), jsonHex (b.toNat % 16)]
  else [b]

/-- The text of a string literal, after some bytes that were written already. -/
def jsonText : Nat → GoString → GoString
  | _, [] => []
  | skip + 1, _ :: s => jsonText skip s
  | 0, b :: s =>
    if b < 0x80 then jsonByte b ++ jsonText 0 s
    else
      match runeTail b s with
      | none => str "\\ufffd" ++ jsonText 0 s
      | some tail =>
        let rune :=
          if b = 0xE2 ∧ tail = [0x80, 0xA8] then str "\\u2028"
          else if b = 0xE2 ∧ tail = [0x80, 0xA9] then str "\\u2029"
          else b :: tail
        rune ++ jsonText tail.length s

/-- `json.Marshal` of a string. -/
def jsonString (s : GoString) : GoString := str "\"" ++ jsonText 0 s ++ str "\""

def base64Digit (n : Nat) : UInt8 :=
  (str "ABCDEFGHIJKLMNOPQRSTUVWXYZabcdefghijklmnopqrstuvwxyz0123456789+/").getD n 0

/-- `base64.StdEncoding`, three bytes at a time. -/
def base64 : GoString → GoString
  | a :: b :: c :: s =>
    let n := a.toNat * 65536 + b.toNat * 256 + c.toNat
    base64Digit (n / 262144) :: base64Digit (n / 4096 % 64) :: base64Digit (n / 64 % 64) ::
      base64Digit (n % 64) :: base64 s
  | [a, b] =>
    let n := a.toNat * 65536 + b.toNat * 256
    [base64Digit (n / 262144), base64Digit (n / 4096 % 64), base64Digit (n / 64 % 64), 0x3D]
  | [a] =>
    let n := a.toNat * 65536
    [base64Digit (n / 262144), base64Digit (n / 4096 % 64), 0x3D, 0x3D]
  | [] => []

/-- `json.Marshal` of a slice of bytes. -/
def jsonBytes (bz : GoString) : GoString := str "\"" ++ base64 bz ++ str "\""

/-- The fields of an object, in the order of the structure. -/
def jsonObject (fields : List (GoString × GoString)) : GoString :=
  str "\x7b" ++ join (str ",") (fields.map fun f => jsonString f.1 ++ str ":" ++ f.2) ++ str "\x7d"

example : jsonString (str "a<\"\n") = str "\"a\\u003c\\\"\\n\"" := by decide

example : jsonBytes (str "Ma") = str "\"TWE=\"" := by decide

end WardenProtocol

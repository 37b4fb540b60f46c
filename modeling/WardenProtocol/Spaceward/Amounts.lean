import WardenProtocol.Foundation.Decimal
import WardenProtocol.Spaceward.Code

namespace WardenProtocol.Spaceward
open Foundation
set_option autoImplicit true

def point : UInt16 := 46

def zeroDigit : UInt16 := 48

/-- `BigInt.toString`. -/
def bigintText (z : Int) : JsString := widen (intString z)

/-- `s.padStart(n, "0")`. -/
def padStart (s : JsString) (n : Nat) : JsString := List.replicate (n - s.length) zeroDigit ++ s

/-- `s.padEnd(n, "0")`. -/
def padEnd (s : JsString) (n : Nat) : JsString := s ++ List.replicate (n - s.length) zeroDigit

/-- A comma in front of each three digits, of a text that is read from its end. -/
def separated : JsString → JsString
  | a :: b :: c :: d :: s => a :: b :: c :: comma :: separated (d :: s)
  | s => s

/-- `BigInt.toLocaleString("en-US")`. -/
def toLocaleString : Int → JsString
  | .ofNat n => (separated (bigintText n).reverse).reverse
  | .negSucc n => 45 :: (separated (bigintText (n + 1 : Nat)).reverse).reverse

structure CompactConf where
  unit : JsString
  moreThan : Int

def COMPACT_UTIL : List CompactConf :=
  [⟨js "B", 1000000000⟩, ⟨js "M", 1000000⟩, ⟨js "K", 1000⟩]

structure ToFixedFormatOptions where
  compact : Bool
  decimals : Nat
  format : Bool
  display : Option Nat

/-- The unit of an amount in compact mode, if it comes to the least of them. -/
def compactConf (compact : Bool) (int : Int) : Option CompactConf :=
  if compact then COMPACT_UTIL.find? fun conf => int ≥ conf.moreThan else none

def compactText (int : Int) (conf : CompactConf) : JsString :=
  let amount := int.tdiv conf.moreThan
  let mod := int.tmod conf.moreThan
  if mod > 0 then
    bigintText amount ++ js "." ++ (padStart (bigintText mod) 2).take 2 ++ conf.unit
  else bigintText amount ++ conf.unit

/-- The number of digits displayed, where `0` is as if none were given. -/
def ToFixedFormatOptions.digits (options : ToFixedFormatOptions) : Nat :=
  match options.display with
  | some (n + 1) => if options.decimals < n + 1 then options.decimals else n + 1
  | _ => options.decimals

def plainText (int fra : Int) (options : ToFixedFormatOptions) : JsString :=
  if fra = 0 then bigintText int
  else
    let padded := (padStart (bigintText fra) options.decimals).take options.digits
    let trimmed := padded.rdropWhile (· = zeroDigit)
    (if options.format then toLocaleString int else bigintText int) ++
      if trimmed ≠ [] then js "." ++ trimmed else []

def bigintToFixed (v : Option Int) (options : ToFixedFormatOptions) : JsString :=
  let unit : Int := 10 ^ options.decimals
  let int := (v.getD 0).tdiv unit
  let fra := (v.getD 0).tmod unit
  match compactConf options.compact int with
  | some conf => compactText int conf
  | none => plainText int fra options

def numRestrict (value : JsString) : JsString :=
  let v := (value.erase 101).filter fun u => isDecimal u || u = point
  List.intercalate (js ".") ((v.splitOn point).take 2)

/-- The value of a digit of a base up to 16. -/
def digitValue (u : UInt16) : Nat :=
  if isDecimal u then u.toNat - 48
  else if 97 ≤ u && u ≤ 102 then u.toNat - 87
  else if 65 ≤ u && u ≤ 70 then u.toNat - 55
  else 16

def inBase (base : Nat) (s : JsString) : Option Int :=
  if s ≠ [] ∧ s.all (digitValue · < base) then
    some (s.foldl (fun n u => n * base + digitValue u) 0 : Nat)
  else none

/-- The literals that `BigInt` reads: with the prefix of a base, or decimal with a sign. -/
def integerLiteral (s : JsString) : Option Int :=
  if s = [] then some 0
  else match (s.take 2).map upperAscii with
    | [48, 88] => inBase 16 (s.drop 2)
    | [48, 79] => inBase 8 (s.drop 2)
    | [48, 66] => inBase 2 (s.drop 2)
    | 45 :: _ => (inBase 10 s.tail).map Neg.neg
    | 43 :: _ => inBase 10 s.tail
    | _ => inBase 10 s

def BigInt (s : JsString) : Except Message Int :=
  match integerLiteral (trim s) with
  | some n => .ok n
  | none => .error (str "Cannot convert " ++ utf8 s ++ str " to a BigInt")

def strToBigint (s : JsString) (decimals : Nat) : Except Message Int :=
  let parts := s.splitOn point
  let int := parts.headD []
  let fra := parts[1]?.getD []
  BigInt (int ++ (padEnd fra decimals).take decimals)

end WardenProtocol.Spaceward

import Reckoner.Yaml.Token

/-!
# Base 64

Bytes written in digits of six bits. Characters that are no digits are passed over; padding that
completes a group of four ends the bytes.
-/
namespace Reckoner.Yaml.Base64

def digit? (c : Char) : Option Nat :=
  let n := c.toNat
  if 65 ≤ n && n ≤ 90 then some (n - 65)
  else if 97 ≤ n && n ≤ 122 then some (n - 71)
  else if 48 ≤ n && n ≤ 57 then some (n + 4)
  else if c = '+' then some 62
  else if c = '/' then some 63
  else none

/-- The digits of an open group with the padding that follows them. -/
structure Group where
  digits : List Nat := []
  padding : Nat := 0

/-- The bytes that the digits of a group make up. -/
def Group.bytes (g : Group) : List Nat :=
  match g.digits with
  | [a, b] => [(a * 64 + b) / 16]
  | [a, b, c] => [(a * 64 + b) / 16, ((a * 64 + b) * 64 + c) / 4 % 256]
  | [a, b, c, d] =>
    let n := ((a * 64 + b) * 64 + c) * 64 + d
    [n / 65536, n / 256 % 256, n % 256]
  | _ => []

/-- The bytes behind an open group, if no group is left open. -/
def bytesFrom? (g : Group) : List Char → Option (List Nat)
  | [] => if g.digits.isEmpty then some [] else none
  | c :: cs =>
    if c = '=' then
      if g.digits.length < 2 then bytesFrom? g cs
      else if 4 ≤ g.digits.length + g.padding + 1 then some g.bytes
      else bytesFrom? { g with padding := g.padding + 1 } cs
    else match digit? c with
      | none => bytesFrom? g cs
      | some d =>
        let full : Group := ⟨g.digits ++ [d], 0⟩
        if full.digits.length = 4 then (bytesFrom? {} cs).map (full.bytes ++ ·)
        else bytesFrom? full cs

/-- The bytes of a text, which must be ASCII. -/
def decode (text : String) : Result Datum :=
  match if text.toList.all (·.toNat < 128) then bytesFrom? {} text.toList else none with
  | some bytes => .ok (.bytes bytes)
  | none => malformed

end Reckoner.Yaml.Base64

/-!
# Halves of pairs

A text may hold a code point that is half of a pair of units and no character. The private
characters from U+10D800 stand for these code points, in their order.
-/
namespace Reckoner.Text

def isHalfCode (n : Nat) : Bool := 0xd800 ≤ n && n < 0xe000

/-- How far the characters that stand for halves lie behind them. -/
def halfOffset : Nat := 0x100000

/-- The character for a code point. -/
def ofCode (n : Nat) : Char := Char.ofNat (if isHalfCode n then n + halfOffset else n)

def isHalf (c : Char) : Bool := halfOffset ≤ c.toNat && isHalfCode (c.toNat - halfOffset)

/-- The code point that a character stands for. -/
def code (c : Char) : Nat := if isHalf c then c.toNat - halfOffset else c.toNat

end Reckoner.Text

import Reckoner.Text.HalfPair
import Reckoner.Text.Printable

/-!
# Quoted text

Text between quotation marks. Single marks are used unless the text holds single marks and no
double ones; a backslash, the mark in use and characters without a printed form are escaped.
-/
namespace Reckoner.Text

/-- The last `width` hexadecimal digits of `n`, in lower case. -/
def hexDigits : Nat → Nat → List Char
  | 0, _ => []
  | width + 1, n => hexDigits width (n / 16) ++ [Nat.digitChar (n % 16)]

/-- A character by its code, in the shortest of three widths. -/
def codeEscape (c : Char) : List Char :=
  if code c < 0x100 then '\\' :: 'x' :: hexDigits 2 (code c)
  else if code c < 0x10000 then '\\' :: 'u' :: hexDigits 4 (code c)
  else '\\' :: 'U' :: hexDigits 8 (code c)

def escaped (mark : Char) (c : Char) : List Char :=
  if c = mark || c = '\\' then ['\\', c]
  else if c = '\n' then ['\\', 'n']
  else if c = '\r' then ['\\', 'r']
  else if c = '\t' then ['\\', 't']
  else if isPrintable c then [c]
  else codeEscape c

def quoted (text : String) : String :=
  let cs := text.toList
  let mark := if cs.contains '\'' && !cs.contains '"' then '"' else '\''
  String.ofList (mark :: cs.flatMap (escaped mark) ++ [mark])

end Reckoner.Text

import Reckoner.Library.Elementary

/-!
# The gamma function

Lanczos' approximation with thirteen terms for arguments from 1 to 171. The values at the integers
up to 23 are exact.
-/
namespace Reckoner.Gamma

def offset : Float := 6.024680040776729583740234375

def offsetMinusHalf : Float := 5.524680040776729583740234375

/-- Coefficients of the rational sum, the constant term first: numerator and denominator. -/
def coefficients : List (Float × Float) := [
  (23531376880.410759688572007674451636754734846804940, 0.0),
  (42919803642.649098768957899047001988850926355848959, 39916800.0),
  (35711959237.355668049440185451547166705960488635843, 120543840.0),
  (17921034426.037209699919755754458931112671403265390, 150917976.0),
  (6039542586.3520280050642916443072979210699388420708, 105258076.0),
  (1439720407.3117216736632230727949123939715485786372, 45995730.0),
  (248874557.86205415651146038641322942321632125127801, 13339535.0),
  (31426415.585400194380614231628318205362874684987640, 2637558.0),
  (2876370.6289353724412254090516208496135991145378768, 357423.0),
  (186056.26539522349504029498971604569928220784236328, 32670.0),
  (8071.6720023658162106380029022722506138218516325024, 1925.0),
  (210.82427775157934587250973392071336271166969580291, 66.0),
  (2.5066282746310002701649081771338373386264310793408, 1.0)]

/-- The rational sum, evaluated from the end that keeps the terms small. -/
def rationalSum (x : Float) : Float :=
  if x < 5.0 then
    let (n, d) := coefficients.foldr (fun (a, b) (n, d) => (n * x + a, d * x + b)) (0.0, 0.0)
    n / d
  else
    let (n, d) := coefficients.foldl (fun (n, d) (a, b) => (n / x + a, d / x + b)) (0.0, 0.0)
    n / d

def factorial : Nat → Nat
  | 0 => 1
  | n + 1 => (n + 1) * factorial n

/-- The gamma function of a number from 1 to 171. -/
def gamma (E : Elementary) (x : Float) : Except MathFault Float := do
  if x.isNaN then return x
  if Number.isInteger x && x ≤ 23.0 then
    return Number.ofInteger (factorial (x.toUInt64.toNat - 1))
  let y := x + offsetMinusHalf
  let error :=
    if x > offsetMinusHalf then (y - x) - offsetMinusHalf else (y - offsetMinusHalf) - x
  let z := error * offset / y
  let r := rationalSum x / (← E.unary .exp y)
  let r := r - z * r
  if x < 140.0 then return r * (← E.power y (x - 0.5))
  else
    let half ← E.power y (x / 2.0 - 0.25)
    return r * half * half

end Reckoner.Gamma

/-!
# Double-precision numbers

A non-negative double is `mantissa * 2 ^ exponent`. A quotient is rounded to the nearest double, and
halfway between two of them to the one with the even mantissa. The decimal text of a double has the
fewest digits that single it out among the doubles.
-/

namespace ScriptSense

structure Binary64 where
  mantissa : Nat
  exponent : Int
  deriving DecidableEq, Repr, Inhabited

namespace Binary64

/-- The nearest integer to `num / den`, and of two equally near ones the even one. -/
def roundHalfEven (num den : Nat) : Nat :=
  let floor := num / den
  let twice := 2 * (num % den)
  if twice < den then floor
  else if den < twice then floor + 1
  else floor + floor % 2

def shiftUp (n : Nat) (amount : Int) : Nat :=
  n * Nat.pow 2 amount.toNat

/-- The exponent of the largest power of two that is at most `num / den`. -/
def binaryMagnitude (num den : Nat) : Int :=
  let guess : Int := (num.log2 : Int) - (den.log2 : Int)
  if shiftUp den guess ≤ shiftUp num (-guess) then guess else guess - 1

/-- The least mantissa of a double that keeps all its bits. -/
def leastNormal : Nat := 0x10000000000000

def minExponent : Int := -1074

def maxExponent : Int := 971

/-- The double nearest to `num / den`, unless it is too large. -/
def ofQuotient (num den : Nat) : Option Binary64 :=
  if num = 0 then some ⟨0, 0⟩
  else
    let exponent := max (binaryMagnitude num den - 52) minExponent
    let mantissa := roundHalfEven (shiftUp num (-exponent)) (shiftUp den exponent)
    let (mantissa, exponent) :=
      if mantissa = 2 * leastNormal then (leastNormal, exponent + 1) else (mantissa, exponent)
    if maxExponent < exponent then none else some ⟨mantissa, exponent⟩

def ofNat (n : Nat) : Option Binary64 :=
  ofQuotient n 1

def mul (x y : Binary64) : Option Binary64 :=
  let exponent := x.exponent + y.exponent
  ofQuotient (shiftUp (x.mantissa * y.mantissa) exponent) (shiftUp 1 (-exponent))

def div (x y : Binary64) : Option Binary64 :=
  let exponent := x.exponent - y.exponent
  ofQuotient (shiftUp x.mantissa exponent) (shiftUp y.mantissa (-exponent))

/-- The largest power of ten that one step of scaling uses. -/
def scaleStep : Nat := 308

def powerOfTen (power : Nat) : Option Binary64 :=
  ofNat (Nat.pow 10 power)

/-- Divides by the largest power of ten of one step, so many times as `steps` says, and then by
`10 ^ power`; each division rounds. -/
def scaleDown (x : Binary64) (power : Nat) : Nat → Option Binary64
  | 0 => (powerOfTen power).bind x.div
  | steps + 1 =>
    if x.mantissa = 0 then some x
    else ((powerOfTen scaleStep).bind x.div).bind (scaleDown · power steps)

/-- The product of a double and a power of ten. -/
def scale (x : Binary64) (power : Int) : Option Binary64 :=
  if power < 0 then
    let steps := ((-power).toNat - 1) / scaleStep
    scaleDown x ((-power).toNat - steps * scaleStep) steps
  else if x.mantissa = 0 then some x
  else if scaleStep < power.toNat then none
  else (powerOfTen power.toNat).bind x.mul

/-- The number of digits before the point of `num / den`, which is not zero; it is not positive when
zeros follow the point. -/
def decimalMagnitude (num den : Nat) : Int :=
  if den ≤ num then (Nat.toDigits 10 (num / den)).length
  else 1 - (Nat.toDigits 10 ((den - 1) / num)).length

/-- The bounds of the numbers that round to a double, doubled twice, over a common denominator. -/
structure Neighbourhood where
  low : Nat
  value : Nat
  high : Nat
  den : Nat
  closed : Bool

def neighbourhood (x : Binary64) : Neighbourhood :=
  let scaled := fun n ↦ shiftUp n x.exponent
  let below := if x.mantissa = leastNormal ∧ minExponent < x.exponent then 1 else 2
  { low := scaled (4 * x.mantissa - below)
    value := scaled (4 * x.mantissa)
    high := scaled (4 * x.mantissa + 2)
    den := shiftUp 4 (-x.exponent)
    closed := x.mantissa % 2 = 0 }

/-- Whether `digits * 10 ^ power` rounds to the double. -/
def Neighbourhood.admits (near : Neighbourhood) (digits : Nat) (power : Int) : Bool :=
  let point := digits * Nat.pow 10 power.toNat * near.den
  let unit := Nat.pow 10 (-power).toNat
  if near.closed then near.low * unit ≤ point && point ≤ near.high * unit
  else near.low * unit < point && point < near.high * unit

/-- Among the two multiples of `10 ^ power` next to the double, the nearer one that rounds to it. -/
def Neighbourhood.choose (near : Neighbourhood) (power : Int) : Option Nat :=
  let num := near.value * Nat.pow 10 (-power).toNat
  let den := near.den * Nat.pow 10 power.toNat
  let nearest := roundHalfEven num den
  if near.admits nearest power then some nearest
  else if near.admits (num / den) power then some (num / den)
  else if near.admits (num / den + 1) power then some (num / den + 1)
  else none

/-- The fewest digits of a double, tried from `count` digits on, and the power of ten of the last
digit. -/
def shortestFrom (near : Neighbourhood) (magnitude : Int) : Nat → Nat → Nat × Int
  | 0, _ => (0, 0)
  | fuel + 1, count =>
    let power := magnitude - count
    match near.choose power with
    | some digits => (digits, power)
    | none => shortestFrom near magnitude fuel (count + 1)

/-- Digits and a power of ten: the shortest decimal that rounds to a double. -/
def shortest (x : Binary64) : Nat × Int :=
  let near := x.neighbourhood
  shortestFrom near (decimalMagnitude near.value near.den) 18 1

/-- Drops the zeros at the end of the digits. -/
def stripZeros (digits : Nat) (power : Int) : Nat × Int :=
  if h : digits ≠ 0 ∧ digits % 10 = 0 then stripZeros (digits / 10) (power + 1)
  else (digits, power)
termination_by digits
decreasing_by omega

def zeros (count : Int) : List Char :=
  List.replicate count.toNat '0'

/-- The text of a double: without an exponent when the point is near the digits, and otherwise with
one digit before the point. -/
def text (x : Binary64) : String :=
  if x.mantissa = 0 then "0.0"
  else
    let (digits, power) := stripZeros x.shortest.1 x.shortest.2
    let run := Nat.toDigits 10 digits
    let point : Int := run.length + power
    if 0 ≤ power ∧ point ≤ 16 then String.ofList (run ++ zeros power ++ ['.', '0'])
    else if 0 < point ∧ point ≤ 16 then
      String.ofList (run.take point.toNat ++ '.' :: run.drop point.toNat)
    else if -5 < point ∧ point ≤ 0 then String.ofList ('0' :: '.' :: zeros (-point) ++ run)
    else
      let tail := if run.length = 1 then [] else '.' :: run.drop 1
      String.ofList (run.take 1 ++ tail) ++ "e" ++ toString (point - 1)

end Binary64

end ScriptSense

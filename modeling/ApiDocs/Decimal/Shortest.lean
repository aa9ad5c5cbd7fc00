/-!
# Shortest decimals

The decimal with the fewest digits that reads back as a given double. A double is a multiple of
a power of two, and the numbers that read back as it form an interval around it. The grids of
decimals with one digit, two digits and so on are tried in turn: of each grid only the two
points next to the double matter, and the first grid with a point inside the interval wins.
-/

namespace ApiDocs

/-- The number `digits * 10 ^ exponent`, with a sign of its own so that zero can be negative. -/
structure Decimal where
  negative : Bool
  digits : Nat
  exponent : Int
  deriving DecidableEq, Repr

namespace Decimal

/-- A ratio of natural numbers. -/
structure Ratio where
  num : Nat
  den : Nat

/-- The ratio times a power of ten. -/
def Ratio.scale (r : Ratio) : Int → Ratio
  | .ofNat k => ⟨r.num * Nat.pow 10 k, r.den⟩
  | .negSucc k => ⟨r.num, r.den * Nat.pow 10 (k + 1)⟩

/-- The natural number times a power of two. -/
def Ratio.ofBinary (m : Nat) : Int → Ratio
  | .ofNat k => ⟨m <<< k, 1⟩
  | .negSucc k => ⟨m, 1 <<< (k + 1)⟩

/-- `n` times the denominator, to compare `n` with the ratio. -/
def Ratio.below (r : Ratio) (n : Nat) : Bool := r.num < n * r.den

@[inherit_doc Ratio.below]
def Ratio.above (r : Ratio) (n : Nat) : Bool := n * r.den < r.num

/-- A positive double: `mantissa * 2 ^ exponent`. At a power of two the doubles below it lie
closer together than those above it. -/
structure Binary where
  mantissa : Nat
  exponent : Int
  atBoundary : Bool

/-- The first bit of a mantissa, which is not stored: the fifty-third from the right. -/
def hiddenBit : Nat := 1 <<< 52

/-- The double with these bits, without its sign. -/
def Binary.ofBits (bits : Nat) : Binary :=
  let fraction : Nat := bits % hiddenBit
  let field : Nat := bits / hiddenBit % 2048
  if field = 0 then ⟨fraction, -1074, false⟩
  else ⟨hiddenBit + fraction, Int.ofNat field - 1075, fraction = 0 && field > 1⟩

/-- `n * 10 ^ k` reads back as the double. An end of the interval belongs to it if the mantissa
is even. -/
def Binary.readsBack (b : Binary) (n : Nat) (k : Int) : Bool :=
  let low := (Ratio.ofBinary (4 * b.mantissa - if b.atBoundary then 1 else 2)
    (b.exponent - 2)).scale (-k)
  let high := (Ratio.ofBinary (4 * b.mantissa + 2) (b.exponent - 2)).scale (-k)
  if b.mantissa % 2 = 0 then !low.above n && !high.below n else low.below n && high.above n

/-- The point of the grid `n * 10 ^ k` that reads back as the double and is nearest to it. Of two
points at the same distance the even one is taken. -/
def Binary.gridPoint? (b : Binary) (k : Int) : Option Nat :=
  let value := (Ratio.ofBinary b.mantissa b.exponent).scale (-k)
  let n := value.num / value.den
  match b.readsBack n k, b.readsBack (n + 1) k with
  | true, false => some n
  | false, true => some (n + 1)
  | true, true =>
    let twice := 2 * (value.num % value.den)
    if twice < value.den then some n
    else if value.den < twice then some (n + 1)
    else some (if n % 2 = 0 then n else n + 1)
  | false, false => none

/-- The place of the first digit: the double is at least ten to this power, and less than ten
times as much. -/
def Binary.firstPlace (b : Binary) : Int :=
  let shift := 400
  let value := (Ratio.ofBinary b.mantissa b.exponent).scale shift
  ((Nat.toDigits 10 (value.num / value.den)).length : Int) - 1 - shift

/-- The shortest decimal among those with `count` digits or more, and its power of ten. No double
needs more than seventeen digits. -/
def Binary.shortestFrom (b : Binary) (count : Nat) : (more : Nat) → Nat × Int
  | 0 => (b.mantissa, b.exponent)
  | more + 1 =>
    let k := b.firstPlace - count + 1
    match b.gridPoint? k with
    | some n => if n = Nat.pow 10 count then (1, k + count) else (n, k)
    | none => b.shortestFrom (count + 1) more

/-- The shortest decimal that reads back as a finite double. -/
def ofFloat (x : Float) : Decimal :=
  let bits := x.toBits.toNat
  let b := Binary.ofBits bits
  let negative := bits >>> 63 = 1
  if b.mantissa = 0 then ⟨negative, 0, 0⟩
  else
    let (digits, exponent) := b.shortestFrom 1 17
    ⟨negative, digits, exponent⟩

/-- Writes a decimal: positional from `0.00001` up to sixteen places before the point, always
with a digit behind the point, and with a signed exponent of ten outside that range. -/
def render (d : Decimal) : String :=
  let sign := if d.negative then "-" else ""
  let digits := Nat.toDigits 10 d.digits
  let places : Int := digits.length + d.exponent
  let zeros (n : Int) : List Char := List.replicate n.toNat '0'
  let body :=
    if d.digits = 0 then "0.0".toList
    else if 0 ≤ d.exponent ∧ places ≤ 16 then digits ++ zeros d.exponent ++ ['.', '0']
    else if 0 < places ∧ places ≤ 16 then
      digits.take places.toNat ++ '.' :: digits.drop places.toNat
    else if -5 < places ∧ places ≤ 0 then '0' :: '.' :: zeros (-places) ++ digits
    else
      let fraction := if digits.length = 1 then [] else '.' :: digits.tail
      let direction := if places ≤ 0 then '-' else '+'
      digits.take 1 ++ fraction ++ 'e' :: direction :: Nat.toDigits 10 (places - 1).natAbs
  sign ++ String.ofList body

end Decimal

end ApiDocs

set_option autoImplicit false

/-! # Shortest decimals

The decimal with the fewest digits that reads back as a given binary64 number, and among those the
nearest to it. Where two are equally near, the format that the number is read from decides.

A number m · 2^q is read back from every real in an interval around it, ends included exactly when
m is even. For one digit, two digits and so on the two neighbours of the number on the grid of such
decimals are tested against the interval; the first grid with a hit wins, and seventeen digits
always hit. All tests are exact, on natural numbers over one denominator. -/

namespace SelectorExplain

/-- The number `digits · 10^exponent`. -/
structure Decimal where
  digits : Nat
  exponent : Int
  deriving DecidableEq, Repr, Inhabited

/-- Which of two decimals that are equally near to a number is taken. -/
inductive Tie where
  /-- The one whose last digit is even. -/
  | even
  /-- The greater one. -/
  | up
  deriving DecidableEq, Repr

/-- A binary64 number as it is reported: its sign and its shortest decimal. -/
inductive Real64 where
  | finite (negative : Bool) (value : Decimal)
  | infinite (negative : Bool)
  | nan
  deriving DecidableEq, Repr, Inhabited

namespace Decimal

/-! ## The search -/

/-- A number `value / den` and the reals that read back as it. -/
structure Interval where
  low : Nat
  value : Nat
  high : Nat
  den : Nat
  closed : Bool

namespace Interval

/-- The same interval, measured in units of 10^k. -/
def scale (i : Interval) (k : Int) : Interval :=
  if 0 ≤ k then { i with den := i.den * Nat.pow 10 k.toNat }
  else
    let f := Nat.pow 10 (-k).toNat
    { i with low := i.low * f, value := i.value * f, high := i.high * f }

/-- Whether the integer `c` reads back as the number. -/
def contains (i : Interval) (c : Nat) : Bool :=
  if i.closed then i.low ≤ c * i.den && c * i.den ≤ i.high
  else i.low < c * i.den && c * i.den < i.high

/-- The integer next to the number that reads back as it, if one of the two neighbours does. When
    both do, the nearer is taken. -/
def nearest? (tie : Tie) (i : Interval) : Option Nat :=
  let below := i.value / i.den
  let above := below + 1
  match i.contains below, i.contains above with
  | false, false => none
  | true, false => some below
  | false, true => some above
  | true, true =>
    let down := i.value - below * i.den
    let up := above * i.den - i.value
    some (if down < up ∨ (down = up ∧ tie = .even ∧ below % 2 = 0) then below else above)

/-- The exponent of the first decimal digit of the number. -/
def leading (i : Interval) : Int :=
  let count (n : Nat) : Nat := (Nat.toDigits 10 n).length
  if i.den ≤ i.value then (count (i.value / i.den) - 1 : Nat)
  else -(count ((i.den + i.value - 1) / i.value - 1) : Nat)

/-- The shortest decimal, starting at exponent `k` and going down one digit at a time. -/
def search (tie : Tie) (i : Interval) : (more : Nat) → Int → Decimal
  | 0, k => ⟨(i.scale k).value / (i.scale k).den, k⟩
  | more + 1, k =>
    match (i.scale k).nearest? tie with
    | some c => ⟨c, k⟩
    | none => i.search tie more (k - 1)

end Interval

/-- The same number without trailing zeros. -/
def trim : (zeros : Nat) → Decimal → Decimal
  | 0, d => d
  | zeros + 1, d =>
    if d.digits ≠ 0 ∧ d.digits % 10 = 0 then trim zeros ⟨d.digits / 10, d.exponent + 1⟩ else d

/-- The interval of the positive number `m · 2^q`; `lowest` says that the gap below it is only half
    as wide as the one above. -/
def interval (m : Nat) (q : Int) (lowest : Bool) : Interval :=
  let wide := q - 2
  let f := if 0 ≤ wide then Nat.pow 2 wide.toNat else 1
  { low := (4 * m - if lowest then 1 else 2) * f
    value := 4 * m * f
    high := (4 * m + 2) * f
    den := if 0 ≤ wide then 1 else Nat.pow 2 (-wide).toNat
    closed := m % 2 = 0 }

/-- The shortest decimal of `m · 2^q`. -/
def shortest (tie : Tie) (m : Nat) (q : Int) (lowest : Bool) : Decimal :=
  if m = 0 then ⟨0, 0⟩
  else
    let i := interval m q lowest
    trim 20 (i.search tie 17 i.leading)

end Decimal

/-- The number with a given bit pattern. -/
def Real64.ofBits (tie : Tie) (bits : UInt64) : Real64 :=
  let n : Nat := bits.toNat
  let negative : Bool := n / Nat.pow 2 63 = 1
  let e : Nat := n / Nat.pow 2 52 % Nat.pow 2 11
  let f : Nat := n % Nat.pow 2 52
  if e = 2047 then (if f = 0 then .infinite negative else .nan)
  else if e = 0 then .finite negative (Decimal.shortest tie f (-1074) false)
  else .finite negative (Decimal.shortest tie (Nat.pow 2 52 + f) ((e : Int) - 1075) (f = 0 && e != 1))

def Real64.ofFloat (tie : Tie) (x : Float) : Real64 := .ofBits tie x.toBits

/-- The number nearest to `digits · 10^exponent`, with a sign. Far outside the range of the format
    the digits do not matter. -/
def Real64.nearest (tie : Tie) (negative : Bool) (digits : Nat) (exponent : Int) : Real64 :=
  let magnitude : Int := (Nat.toDigits 10 digits).length + exponent
  if digits = 0 ∨ magnitude < -400 then .finite negative ⟨0, 0⟩
  else if 400 < magnitude then .infinite negative
  else
    let x := Float.ofScientific digits (exponent < 0) exponent.natAbs
    .ofFloat tie (if negative then -x else x)

/-! ## Spelling -/

namespace Decimal

/-- The digits as text. -/
def digitText (d : Decimal) : String := toString d.digits

/-- The exponent of the first digit. -/
def magnitude (d : Decimal) : Int := d.exponent + d.digitText.length - 1

/-- All digits around a point, with at least one on either side. -/
def positional (d : Decimal) : String :=
  let text := d.digitText
  if 0 ≤ d.exponent then text.pushn '0' d.exponent.toNat ++ ".0"
  else
    let behind := (-d.exponent).toNat
    if behind < text.length then
      String.ofList (text.toList.take (text.length - behind)) ++ "." ++
        String.ofList (text.toList.drop (text.length - behind))
    else "0.".pushn '0' (behind - text.length) ++ text

/-- One digit before the point, the others behind it, and the exponent with its sign. -/
def scientific (d : Decimal) : String :=
  let tail := d.digitText.toList.drop 1
  String.ofList (d.digitText.toList.take 1) ++
    (if tail.isEmpty then "" else "." ++ String.ofList tail) ++
    (if 0 ≤ d.magnitude then "e+" else "e-") ++ toString d.magnitude.natAbs

end Decimal

namespace Real64

/-- A sign and a text. -/
def signed (negative : Bool) (text : String) : String := if negative then "-" ++ text else text

/-- Every finite number with a point. -/
def plainText : Real64 → String
  | finite negative value => signed negative value.positional
  | infinite negative => signed negative "inf"
  | nan => "NaN"

/-- With a point from 10^-5 up to but not including 10^16, else with an exponent. -/
def boundedText : Real64 → String
  | finite negative value =>
    signed negative <|
      if value.digits = 0 ∨ (-5 ≤ value.magnitude ∧ value.magnitude < 16) then value.positional
      else value.scientific
  | infinite negative => signed negative "inf"
  | nan => "NaN"

end Real64

end SelectorExplain

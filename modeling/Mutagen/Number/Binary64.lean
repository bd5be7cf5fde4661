/-!
# Binary floating point, taken apart

A finite number is a whole mantissa times a power of two. Fractions are rounded
to the nearest such number, halfway cases to the even mantissa.
-/
namespace Mutagen

/-- The quotient rounded to the nearest whole number, halfway cases to the even one. -/
def roundDiv (num den : Nat) : Nat :=
  let q := num / den
  let r := num % den
  if 2 * r < den then q
  else if den < 2 * r then q + 1
  else q + q % 2

theorem roundDiv_near (num den : Nat) (h : 0 < den) :
    2 * num ≤ 2 * (roundDiv num den * den) + den ∧
      2 * (roundDiv num den * den) ≤ 2 * num + den := by
  have hq := Nat.div_add_mod num den
  have hm := Nat.mod_lt num h
  have hc : den * (num / den) = num / den * den := Nat.mul_comm ..
  have h2 : num / den % 2 = 0 ∨ num / den % 2 = 1 := by omega
  simp only [roundDiv]
  split
  · omega
  · split
    · rw [Nat.add_mul, Nat.one_mul]; omega
    · rcases h2 with h2 | h2 <;> rw [h2]
      · rw [Nat.add_zero]; omega
      · rw [Nat.add_mul, Nat.one_mul]; omega

inductive Binary64 where
  | nan
  | infinite (negative : Bool)
  /-- Mantissa times two to the exponent. -/
  | finite (negative : Bool) (mantissa : Nat) (exponent : Int)
  deriving DecidableEq, Repr

namespace Binary64

/-- The bit before the fraction, which is not stored. -/
def hiddenBit : Nat := Nat.pow 2 52

def signBit : Nat := Nat.pow 2 63

def ofBits (bits : Nat) : Binary64 :=
  let negative := decide (signBit ≤ bits)
  let exponent : Nat := bits / hiddenBit % 2048
  let fraction := bits % hiddenBit
  if exponent = 2047 then (if fraction = 0 then infinite negative else nan)
  else if exponent = 0 then finite negative fraction (-1074)
  else finite negative (hiddenBit + fraction) ((exponent : Int) - 1075)

def ofFloat (x : Float) : Binary64 := ofBits x.toBits.toNat

/-- A number times a power of two, as numerator and denominator. -/
def ratio (mantissa : Nat) (exponent : Int) : Nat × Nat :=
  if 0 ≤ exponent then (mantissa * Nat.pow 2 exponent.toNat, 1)
  else (mantissa, Nat.pow 2 (-exponent).toNat)

/-- The bits of the number nearest to a positive fraction. -/
def nearestBits (num den : Nat) : Nat :=
  let guess : Int := (num.log2 : Int) - den.log2 - 52
  let scaled (q : Int) : Nat × Nat :=
    if 0 ≤ q then (num, den * Nat.pow 2 q.toNat) else (num * Nat.pow 2 (-q).toNat, den)
  let (n, d) := scaled guess
  let q := max (if n < d * hiddenBit then guess - 1 else guess) (-1074)
  let (n, d) := scaled q
  let m := roundDiv n d
  if m < hiddenBit then m
  else min ((q + 1075).toNat * hiddenBit + (m - hiddenBit)) (2047 * hiddenBit)

/-- The number nearest to a fraction. -/
def nearest (negative : Bool) (num den : Nat) : Float :=
  let bits := if num = 0 then 0 else nearestBits num den
  Float.ofBits (UInt64.ofNat (bits + if negative then signBit else 0))

end Binary64
end Mutagen

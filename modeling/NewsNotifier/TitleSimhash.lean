import NewsNotifier.PyValues
import Mathlib.Data.Nat.Bitwise
import Mathlib.Data.Nat.Digits.Defs

namespace NewsNotifier

def tokenize (lib : PyLib) (text : String) : List String :=
  (runsOf lib.isWord [] (lib.lower text).toList).map String.ofList

/-- One token's vote on every bit. -/
def addDigest (weights : List Int) (digest : Nat) : List Int :=
  weights.mapIdx fun i w => if digest.testBit i then w + 1 else w - 1

def fingerprintOf (weights : List Int) : Nat → Nat
  | 0 => 0
  | i + 1 =>
    if 0 < weights.getD i 0 then fingerprintOf weights i ||| 1 <<< i else fingerprintOf weights i

def simhash (lib : PyLib) (text : String) : Nat :=
  let tokens := tokenize lib text
  if tokens.isEmpty then 0
  else
    let weights := (tokens.map lib.md5).foldl addDigest (List.replicate 64 0)
    fingerprintOf weights 64

/-- `bin(a ^ b).count("1")`. -/
def hammingDistance (a b : Nat) : Nat := (Nat.digits 2 (a ^^^ b)).count 1

def toSigned64 (fingerprint : Nat) : Int :=
  if 2 ^ 63 ≤ fingerprint then (fingerprint : Int) - 2 ^ 64 else fingerprint

/-- `value & ((1 << 64) - 1)`. -/
def fromSigned64 (value : Int) : Nat := (value % 2 ^ 64).toNat

theorem fingerprintOf_lt (weights : List Int) (n : Nat) : fingerprintOf weights n < 2 ^ n := by
  induction n with
  | zero => simp [fingerprintOf]
  | succ n ih =>
    have wide : fingerprintOf weights n < 2 ^ (n + 1) := by
      have := Nat.pow_le_pow_right (n := 2) (by omega) (Nat.le_succ n)
      omega
    unfold fingerprintOf
    split
    next =>
      apply Nat.or_lt_two_pow wide
      rw [Nat.one_shiftLeft]
      exact Nat.pow_lt_pow_right (by omega) (by omega)
    next => exact wide

theorem simhash_lt (lib : PyLib) (text : String) : simhash lib text < 2 ^ 64 := by
  simp only [simhash]
  split
  next => omega
  next => exact fingerprintOf_lt _ 64

theorem fromSigned64_toSigned64 {f : Nat} (h : f < 2 ^ 64) : fromSigned64 (toSigned64 f) = f := by
  unfold fromSigned64 toSigned64
  split <;> omega

theorem toSigned64_injective {f g : Nat} (hf : f < 2 ^ 64) (hg : g < 2 ^ 64)
    (h : toSigned64 f = toSigned64 g) : f = g := by
  rw [← fromSigned64_toSigned64 hf, h, fromSigned64_toSigned64 hg]

theorem hammingDistance_comm (a b : Nat) : hammingDistance a b = hammingDistance b a := by
  simp only [hammingDistance, Nat.xor_comm]

end NewsNotifier

import Mathlib.Data.Nat.Log
import IKEv2.GoLang.BigEndian

/-!
# Numbers of any size (`math/big`)

A non-negative `big.Int` is a natural number.  `bigBytes` is `Bytes`, the big-endian octets without
zeros in front; `SetBytes` is `octNat`.  `bigExp` is `Exp` with a modulus, by squaring, so that it
can be evaluated on exponents of cryptographic size.

* `octNat_bigBytes`   `SetBytes` undoes `Bytes`;
* `byteLen_le`        a number below `256 ^ n` has at most `n` octets;
* `bigExp_eq`         `bigExp x y m = x ^ y % m`;
* `bigExp_comm`       two exponents can be applied in either order.
-/

set_option linter.unusedVariables false

namespace GoLang

/-! ## octets -/

/-- the number of octets of a number; none for 0 -/
def byteLen (v : Nat) : Nat := if v = 0 then 0 else v.log2 / 8 + 1

/-- `v.Bytes()` -/
def bigBytes (v : Nat) : List UInt8 := octets (byteLen v) v

theorem pow_256 (n : Nat) : 256 ^ n = 2 ^ (8 * n) := by
  rw [show (256 : Nat) = 2 ^ 8 from rfl, ← Nat.pow_mul]

theorem lt_byteLen (v : Nat) : v < 256 ^ byteLen v := by
  unfold byteLen
  by_cases h : v = 0
  · rw [if_pos h, h]; decide
  · rw [if_neg h, pow_256]
    have h1 : v < 2 ^ (v.log2 + 1) := Nat.lt_log2_self
    have h2 : 2 ^ (v.log2 + 1) ≤ 2 ^ (8 * (v.log2 / 8 + 1)) :=
      Nat.pow_le_pow_right (by omega) (by omega)
    omega

theorem byteLen_le {v n : Nat} (h : v < 256 ^ n) : byteLen v ≤ n := by
  unfold byteLen
  by_cases h0 : v = 0
  · rw [if_pos h0]; omega
  · rw [if_neg h0]
    rw [pow_256] at h
    have h1 : v.log2 < 8 * n := (Nat.log2_lt h0).mpr h
    omega

theorem octNat_bigBytes (v : Nat) : octNat (bigBytes v) = v := octNat_octets_of_lt (lt_byteLen v)

@[simp] theorem length_bigBytes (v : Nat) : (bigBytes v).length = byteLen v := length_octets _ _

/-! ## powers -/

/-- `x ^ y % m` for `y < 2 ^ k` -/
def expMod (m : Nat) : Nat → Nat → Nat → Nat
  | 0, _, _ => 1 % m
  | k+1, x, y =>
    let h := expMod m k (x * x % m) (y / 2)
    if y % 2 = 1 then x * h % m else h

/-- `Exp(x, y, m)` -/
def bigExp (x y m : Nat) : Nat := expMod m (y.log2 + 1) x y

theorem expMod_eq (m k x y : Nat) (hy : y < 2 ^ k) : expMod m k x y = x ^ y % m := by
  induction k generalizing x y with
  | zero =>
    have h0 : y = 0 := by simpa using hy
    rw [h0, pow_zero]
    rfl
  | succ k ih =>
    have hd : y / 2 < 2 ^ k := by
      rw [pow_succ] at hy
      omega
    have hh : expMod m k (x * x % m) (y / 2) = x ^ (2 * (y / 2)) % m := by
      rw [ih _ _ hd, ← Nat.pow_mod, ← pow_two, ← pow_mul]
    show (if y % 2 = 1 then x * expMod m k (x * x % m) (y / 2) % m else _) = _
    rw [hh]
    by_cases h1 : y % 2 = 1
    · have he : y = 2 * (y / 2) + 1 := by omega
      rw [if_pos h1, Nat.mul_mod_mod, mul_comm, ← pow_succ, ← he]
    · have he : 2 * (y / 2) = y := by omega
      rw [if_neg h1, he]

theorem bigExp_eq (x y m : Nat) : bigExp x y m = x ^ y % m := expMod_eq m _ x y Nat.lt_log2_self

theorem bigExp_lt (x y : Nat) {m : Nat} (hm : 0 < m) : bigExp x y m < m := by
  rw [bigExp_eq]
  exact Nat.mod_lt _ hm

/-- the exponents can be applied in either order -/
theorem bigExp_comm (g a b m : Nat) : bigExp (bigExp g a m) b m = bigExp (bigExp g b m) a m := by
  rw [bigExp_eq, bigExp_eq, bigExp_eq, bigExp_eq, ← Nat.pow_mod, ← Nat.pow_mod, ← pow_mul, ← pow_mul,
    mul_comm]

end GoLang

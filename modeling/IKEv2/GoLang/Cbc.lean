import Mathlib.Data.Set.Finite.List
import IKEv2.GoLang.Slice

/-!
# Cipher block chaining (`crypto/cipher`)

`cbcEncrypt` and `cbcDecrypt` over any block cipher of `n` octets; `k` is the number of blocks.
`newCBCEncrypter` and `newCBCDecrypter` are the calls of the library, with their panics: the
initialisation vector has the size of a block, and the data are whole blocks.

* `cbcDecrypt_cbcEncrypt`   decryption undoes encryption if it does so on one block;
* `length_of_undo`          a function that undoes encryption on all blocks gives blocks.
-/

set_option linter.unusedVariables false

namespace GoLang

def xorBytes (a b : List UInt8) : List UInt8 := List.zipWith (· ^^^ ·) a b

def cbcEncrypt (enc : List UInt8 → List UInt8) (n : Nat) :
    Nat → List UInt8 → List UInt8 → List UInt8
  | 0, _, _ => []
  | k+1, iv, d =>
    let c := enc (xorBytes (d.take n) iv)
    c ++ cbcEncrypt enc n k c (d.drop n)

def cbcDecrypt (dec : List UInt8 → List UInt8) (n : Nat) :
    Nat → List UInt8 → List UInt8 → List UInt8
  | 0, _, _ => []
  | k+1, iv, d => xorBytes (dec (d.take n)) iv ++ cbcDecrypt dec n k (d.take n) (d.drop n)

/-- `cipher.NewCBCEncrypter(b, iv)`, `CryptBlocks(dst, d)` -/
def newCBCEncrypter (enc : List UInt8 → List UInt8) (n : Nat) (iv d : List UInt8) :
    Outcome (List UInt8) :=
  if iv.length ≠ n then .panic .cipherInput
  else if d.length % n ≠ 0 then .panic .cipherInput
  else .ok (cbcEncrypt enc n (d.length / n) iv d)

/-- `cipher.NewCBCDecrypter(b, iv)`, `CryptBlocks(dst, d)` -/
def newCBCDecrypter (dec : List UInt8 → List UInt8) (n : Nat) (iv d : List UInt8) :
    Outcome (List UInt8) :=
  if iv.length ≠ n then .panic .cipherInput
  else if d.length % n ≠ 0 then .panic .cipherInput
  else .ok (cbcDecrypt dec n (d.length / n) iv d)

theorem length_xorBytes {a b : List UInt8} (h : a.length = b.length) :
    (xorBytes a b).length = a.length := by
  rw [xorBytes, List.length_zipWith, h, Nat.min_self]

theorem xorBytes_cancel {a b : List UInt8} (h : a.length = b.length) :
    xorBytes (xorBytes a b) b = a := by
  induction a generalizing b with
  | nil => rfl
  | cons x a ih =>
    cases b with
    | nil => exact absurd h (by simp)
    | cons y b =>
      have hl : a.length = b.length := by simpa using h
      show (x ^^^ y ^^^ y) :: xorBytes (xorBytes a b) b = x :: a
      rw [ih hl, UInt8.xor_assoc, UInt8.xor_self, UInt8.xor_zero]

section
variable {enc dec : List UInt8 → List UInt8} {n : Nat}
  (hlen : ∀ b, b.length = n → (enc b).length = n)
include hlen

theorem length_cbcEncrypt (k : Nat) {iv d : List UInt8} (hiv : iv.length = n)
    (hd : d.length = k * n) : (cbcEncrypt enc n k iv d).length = k * n := by
  induction k generalizing iv d with
  | zero => rw [Nat.zero_mul]; rfl
  | succ k ih =>
    rw [Nat.succ_mul] at hd ⊢
    have ht : (d.take n).length = n := by rw [List.length_take]; omega
    have hc := hlen (xorBytes (d.take n) iv) (by rw [length_xorBytes (by rw [ht, hiv]), ht])
    have hr := ih hc (d := d.drop n) (by rw [List.length_drop]; omega)
    show (enc (xorBytes (d.take n) iv) ++ cbcEncrypt enc n k _ (d.drop n)).length = _
    rw [List.length_append, hc, hr]
    omega

/-- **Decryption undoes encryption** if it does so on one block. -/
theorem cbcDecrypt_cbcEncrypt (hinv : ∀ b, b.length = n → dec (enc b) = b) (k : Nat)
    {iv d : List UInt8} (hiv : iv.length = n) (hd : d.length = k * n) :
    cbcDecrypt dec n k iv (cbcEncrypt enc n k iv d) = d := by
  induction k generalizing iv d with
  | zero =>
    rw [Nat.zero_mul] at hd
    exact (List.length_eq_zero_iff.mp hd).symm
  | succ k ih =>
    rw [Nat.succ_mul] at hd
    have ht : (d.take n).length = n := by rw [List.length_take]; omega
    have hx : (xorBytes (d.take n) iv).length = n := by rw [length_xorBytes (by rw [ht, hiv]), ht]
    have hc := hlen _ hx
    have hr := ih hc (d := d.drop n) (by rw [List.length_drop]; omega)
    show cbcDecrypt dec n (k+1) iv (enc (xorBytes (d.take n) iv) ++
      cbcEncrypt enc n k (enc (xorBytes (d.take n) iv)) (d.drop n)) = d
    rw [cbcDecrypt, List.take_left' hc, List.drop_left' hc, hinv _ hx, hr,
      xorBytes_cancel (by rw [ht, hiv]), List.take_append_drop]

/-- encryption is one to one on the blocks of `n` octets, so every block is an encrypted one -/
theorem length_of_undo (hinv : ∀ b, b.length = n → dec (enc b) = b) {b : List UInt8}
    (hb : b.length = n) : (dec b).length = n := by
  have : Finite UInt8 := Finite.of_injective UInt8.toFin fun x y h => UInt8.toFin_inj.mp h
  have hmaps : Set.MapsTo enc {l | l.length = n} {l | l.length = n} := hlen
  have hinj : Set.InjOn enc {l | l.length = n} := by
    intro x hx y hy h
    rw [← hinv x hx, ← hinv y hy, h]
  have hbij := ((List.finite_length_eq UInt8 n).injOn_iff_bijOn_of_mapsTo hmaps).mp hinj
  obtain ⟨x, hx, rfl⟩ := hbij.surjOn hb
  rw [hinv x hx]
  exact hx

end

theorem length_cbcDecrypt {dec : List UInt8 → List UInt8} {n : Nat}
    (hlen : ∀ b, b.length = n → (dec b).length = n) (k : Nat) {iv d : List UInt8}
    (hiv : iv.length = n) (hd : d.length = k * n) : (cbcDecrypt dec n k iv d).length = k * n := by
  induction k generalizing iv d with
  | zero => rw [Nat.zero_mul]; rfl
  | succ k ih =>
    rw [Nat.succ_mul] at hd ⊢
    have ht : (d.take n).length = n := by rw [List.length_take]; omega
    have hp := hlen _ ht
    have hr := ih ht (d := d.drop n) (by rw [List.length_drop]; omega)
    rw [cbcDecrypt, List.length_append, length_xorBytes (by rw [hp, hiv]), hp, hr]
    omega

end GoLang

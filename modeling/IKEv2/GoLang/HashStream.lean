import IKEv2.GoLang.Crypto

/-!
# Iterated keyed hashes

`HashMethods` is the interface `hash.Hash` on objects of some type.  `HashMethods.Computes` says that
the objects with a property `keyed` all compute the hash function `H` of what is written after
`Reset`, whatever they held before.

`chainBlocks H s k` is `T1 | T2 | .. | Tk` with `T1 = H(s | 1)` and `Ti = H(T(i-1) | s | i)`, and
`chainStream H s n` are the first `n` octets of these blocks.

* `take_chainBlocks`    it does not matter how many blocks there are, if there are enough;
* `take_chainStream`    a shorter stream is a prefix of a longer one;
* `Hash.methods_computes`   the HMAC objects compute their HMAC.
-/

set_option linter.unusedVariables false

namespace GoLang

/-! ## the interface -/

/-- the methods `Reset`, `Write`, `Sum(nil)` and `Size` -/
structure HashMethods (σ : Type) where
  reset : σ → σ
  write : σ → List UInt8 → σ
  sum : σ → List UInt8
  size : σ → Nat

/-- the objects with `keyed` compute `H`, whose values have `n` octets -/
structure HashMethods.Computes {σ : Type} (M : HashMethods σ) (keyed : σ → Prop)
    (H : List UInt8 → List UInt8) (n : Nat) : Prop where
  sum : ∀ h d, keyed h → M.sum (M.write (M.reset h) d) = H d
  size : ∀ h d, keyed h → M.size (M.write (M.reset h) d) = n
  keeps : ∀ h d, keyed h → keyed (M.write (M.reset h) d)
  length : ∀ d, (H d).length = n

/-- `hmac.New` gives objects with these methods -/
def Hash.methods (C : Crypto) : HashMethods Hash where
  reset := Hash.reset
  write := Hash.write
  sum := Hash.sum C
  size := Hash.size

theorem Hash.methods_computes {C : Crypto} (hC : C.Sized) (fn : HashFn) (key : List UInt8) :
    (Hash.methods C).Computes (fun h => h.fn = fn ∧ h.key = key) (C.hmac fn key) fn.size := by
  refine ⟨?_, ?_, ?_, hC fn key⟩
  · intro h d hk
    obtain ⟨rfl, rfl⟩ := hk
    rfl
  · intro h d hk
    obtain ⟨rfl, rfl⟩ := hk
    rfl
  · intro h d hk
    exact hk

/-! ## blocks -/

section
variable (H : List UInt8 → List UInt8) (s : List UInt8)

/-- the block `Tk`; nothing is in front of the first one -/
def chainBlock : Nat → List UInt8
  | 0 => []
  | k+1 => H (chainBlock k ++ s ++ [UInt8.ofNat (k + 1)])

/-- the blocks `T1` to `Tk` -/
def chainBlocks (k : Nat) : List UInt8 := (List.range k).flatMap fun i => chainBlock H s (i + 1)

/-- the first `n` octets of the blocks; as every block has an octet, `n` blocks are enough -/
def chainStream (n : Nat) : List UInt8 := (chainBlocks H s n).take n

theorem chainBlocks_succ (k : Nat) :
    chainBlocks H s (k + 1) = chainBlocks H s k ++ chainBlock H s (k + 1) := by
  rw [chainBlocks, List.range_succ, List.flatMap_append, List.flatMap_singleton]
  rfl

variable {H} {n : Nat} (hlen : ∀ d, (H d).length = n)
include hlen

theorem length_chainBlocks (k : Nat) : (chainBlocks H s k).length = k * n := by
  induction k with
  | zero => rw [Nat.zero_mul]; rfl
  | succ k ih =>
    rw [chainBlocks_succ, List.length_append, ih, Nat.succ_mul, chainBlock, hlen]

/-- more blocks do not change the first octets -/
theorem take_chainBlocks_add (k j : Nat) {m : Nat} (hm : m ≤ k * n) :
    (chainBlocks H s (k + j)).take m = (chainBlocks H s k).take m := by
  induction j with
  | zero => rfl
  | succ j ih =>
    have hle : m ≤ (chainBlocks H s (k + j)).length := by
      rw [length_chainBlocks s hlen, Nat.add_mul]
      omega
    rw [← Nat.add_assoc, chainBlocks_succ, List.take_append_of_le_length hle, ih]

theorem take_chainBlocks (hn : 0 < n) {k m : Nat} (hm : m ≤ k * n) :
    (chainBlocks H s k).take m = chainStream H s m := by
  have hmm : m ≤ m * n := Nat.le_mul_of_pos_right m hn
  rcases Nat.le_total k m with hkm | hkm
  · obtain ⟨j, rfl⟩ := Nat.exists_eq_add_of_le hkm
    exact (take_chainBlocks_add s hlen k j hm).symm
  · obtain ⟨j, rfl⟩ := Nat.exists_eq_add_of_le hkm
    exact take_chainBlocks_add s hlen m j hmm

theorem length_chainStream (hn : 0 < n) (m : Nat) : (chainStream H s m).length = m := by
  have hmm : m ≤ m * n := Nat.le_mul_of_pos_right m hn
  rw [chainStream, List.length_take, length_chainBlocks s hlen]
  omega

/-- **A shorter stream is a prefix of a longer one.** -/
theorem take_chainStream (hn : 0 < n) {m l : Nat} (h : m ≤ l) :
    (chainStream H s l).take m = chainStream H s m := by
  have hll : l ≤ l * n := Nat.le_mul_of_pos_right l hn
  rw [chainStream, List.take_take, Nat.min_eq_left h]
  exact take_chainBlocks s hlen hn (Nat.le_trans h hll)

end

end GoLang

import IKEv2.GoLang.Outcome

/-!
# The crypto packages of the Go library, as a parameter

`crypto/hmac` with SHA-1 and SHA-256 is a function of key and data, `crypto/aes` a pair of functions
on blocks of 16 octets for each key.  `Crypto.Lawful` is what their documentation promises.

`Hash` is a keyed `hash.Hash` with what has been written to it, `AesCipher` a `cipher.Block` made by
`aes.NewCipher`, which exists for keys of the right size only.  The random source is the list of the
octets it will deliver.  Reading more than there are is an error of `io.ReadFull`; `rand.Read` has no
errors, it ends the process then.
-/

set_option linter.unusedVariables false

namespace GoLang

/-- `sha1.New` and `sha256.New` -/
inductive HashFn where
  | sha1
  | sha256
deriving DecidableEq, Repr

/-- `Size()` -/
def HashFn.size : HashFn → Nat
  | .sha1 => 20
  | .sha256 => 32

structure Crypto where
  /-- `hmac.New(h, key)`, `Write(data)`, `Sum(nil)` -/
  hmac : HashFn → List UInt8 → List UInt8 → List UInt8
  /-- `aes.NewCipher(key)`, `Encrypt` of one block -/
  aesEncrypt : List UInt8 → List UInt8 → List UInt8
  /-- `aes.NewCipher(key)`, `Decrypt` of one block -/
  aesDecrypt : List UInt8 → List UInt8 → List UInt8

def aesBlockSize : Nat := 16

/-- the key sizes that `aes.NewCipher` takes -/
def AesKey (key : List UInt8) : Prop :=
  key.length = 16 ∨ key.length = 24 ∨ key.length = 32

instance (key : List UInt8) : Decidable (AesKey key) :=
  inferInstanceAs (Decidable (_ ∨ _ ∨ _))

/-- an HMAC has the size of its hash function -/
def Crypto.Sized (C : Crypto) : Prop := ∀ h key data, (C.hmac h key data).length = h.size

structure Crypto.Lawful (C : Crypto) : Prop where
  hmac_length : C.Sized
  aesEncrypt_length : ∀ key b, AesKey key → b.length = aesBlockSize →
    (C.aesEncrypt key b).length = aesBlockSize
  aesDecrypt_aesEncrypt : ∀ key b, AesKey key → b.length = aesBlockSize →
    C.aesDecrypt key (C.aesEncrypt key b) = b

/-! ## a library given by some of its values -/

/-- the entry of a table of HMACs: hash function, key, data, HMAC -/
abbrev HmacEntry := HashFn × List UInt8 × List UInt8 × List UInt8

/-- the entries of an iterated HMAC with these blocks: the first is over the seed and one, every other
over the block in front of it, the seed and its own number -/
def chainEntries (h : HashFn) (key seed last : List UInt8) (n : UInt8) :
    List (List UInt8) → List HmacEntry
  | [] => []
  | block :: blocks =>
    (h, key, last ++ seed ++ [n], block) :: chainEntries h key seed block (n + 1) blocks

/-- the HMACs of a table, zeros for all other data; one plain block and its cipher block -/
def Crypto.ofTable (table : List HmacEntry) (plain cipher : List UInt8) : Crypto where
  hmac h key data :=
    match table.find? fun e => e.1 = h ∧ e.2.1 = key ∧ e.2.2.1 = data ∧ e.2.2.2.length = h.size with
    | some e => e.2.2.2
    | none => List.replicate h.size 0
  aesEncrypt _ b := if b = plain then cipher else if b = cipher then plain else b
  aesDecrypt _ b := if b = plain then cipher else if b = cipher then plain else b

theorem Crypto.ofTable_sized (table : List HmacEntry) (plain cipher : List UInt8) :
    (Crypto.ofTable table plain cipher).Sized := by
  intro h key data
  show (match table.find? _ with
    | some e => e.2.2.2
    | none => List.replicate h.size 0).length = h.size
  cases hf : table.find? fun e =>
      e.1 = h ∧ e.2.1 = key ∧ e.2.2.1 = data ∧ e.2.2.2.length = h.size with
  | none => exact List.length_replicate
  | some e =>
    have he := List.find?_some hf
    exact (of_decide_eq_true he).2.2.2

theorem Crypto.ofTable_lawful (table : List HmacEntry) {plain cipher : List UInt8}
    (hp : plain.length = aesBlockSize) (hc : cipher.length = aesBlockSize) :
    (Crypto.ofTable table plain cipher).Lawful := by
  refine ⟨Crypto.ofTable_sized table plain cipher, ?_, ?_⟩
  · intro key b _ hb
    show (if b = plain then cipher else if b = cipher then plain else b).length = aesBlockSize
    split
    · exact hc
    · split
      · exact hp
      · exact hb
  · intro key b _ hb
    show (if (if b = plain then cipher else if b = cipher then plain else b) = plain then cipher
      else if (if b = plain then cipher else if b = cipher then plain else b) = cipher then plain
      else (if b = plain then cipher else if b = cipher then plain else b)) = b
    by_cases h1 : b = plain
    · rw [if_pos h1, if_pos rfl, h1]
      split
      · assumption
      · rfl
    · rw [if_neg h1]
      by_cases h2 : b = cipher
      · rw [if_pos h2, if_pos rfl, h2]
      · rw [if_neg h2, if_neg h1, if_neg h2]

/-! ## objects -/

structure Hash where
  fn : HashFn
  key : List UInt8
  written : List UInt8
deriving DecidableEq, Repr

namespace Hash

/-- `hmac.New(fn, key)` -/
def new (fn : HashFn) (key : List UInt8) : Hash := { fn := fn, key := key, written := [] }

def reset (h : Hash) : Hash := { h with written := [] }

def write (h : Hash) (data : List UInt8) : Hash := { h with written := h.written ++ data }

/-- `Sum(nil)`, which leaves what has been written -/
def sum (C : Crypto) (h : Hash) : List UInt8 := C.hmac h.fn h.key h.written

def size (h : Hash) : Nat := h.fn.size

end Hash

structure AesCipher where
  key : List UInt8
  valid : AesKey key
deriving DecidableEq

def aesNewCipher (key : List UInt8) : Outcome AesCipher :=
  if h : AesKey key then .ok ⟨key, h⟩
  else fail s!"crypto/aes: invalid key size {key.length}"

/-- `io.ReadFull(rand.Reader, b)` for `n` octets: what is read, and what is left -/
def readRandom (n : Nat) (rand : List UInt8) : Outcome (List UInt8 × List UInt8) :=
  if n ≤ rand.length then .ok (rand.take n, rand.drop n)
  else fail (if rand.length = 0 then "EOF" else "unexpected EOF")

/-- `rand.Read(b)` for `n` octets: it never returns an error -/
def randRead (n : Nat) (rand : List UInt8) : Outcome (List UInt8 × List UInt8) :=
  if n ≤ rand.length then .ok (rand.take n, rand.drop n) else .panic .fatalError

theorem readRandom_ok {n : Nat} {rand : List UInt8} {r : List UInt8 × List UInt8}
    (h : readRandom n rand = .ok r) : n ≤ rand.length ∧ r = (rand.take n, rand.drop n) := by
  unfold readRandom at h
  split at h
  · rename_i hn
    injection h with h
    exact ⟨hn, h.symm⟩
  · exact absurd h (fail_ne_ok _ _)

theorem randRead_ok {n : Nat} {rand : List UInt8} {r : List UInt8 × List UInt8}
    (h : randRead n rand = .ok r) : n ≤ rand.length ∧ r = (rand.take n, rand.drop n) := by
  unfold randRead at h
  split at h
  · rename_i hn
    injection h with h
    exact ⟨hn, h.symm⟩
  · exact absurd h (by simp)

end GoLang

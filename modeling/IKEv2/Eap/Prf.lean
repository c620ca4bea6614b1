import IKEv2.Security.PrfPlus

/-!
# The keys of EAP-AKA' (`EapAkaPrimePRF` of `eap/eap_aka_prime.go`)

PRF' is written out a second time in the EAP package: a new HMAC object for every round, a variable
for the last block, and always seven rounds, of which 208 octets are used.

* `akaPrfRounds_eq`   the rounds make the blocks of the iterated hash;
* `streams_agree`     so `PrfPlus` and `EapAkaPrimePRF` give the same octets.
-/

set_option linter.unusedVariables false

namespace Ike
open GoLang

structure AkaPrimeKeys where
  k_encr : Bytes
  k_aut : Bytes
  k_re : Bytes
  msk : Bytes
  emsk : Bytes
deriving DecidableEq, Repr

/-- `"EAP-AKA'"` -/
def akaPrimeLabel : Bytes := [0x45, 0x41, 0x50, 0x2d, 0x41, 0x4b, 0x41, 0x27]

def prfRounds : Nat := 208 / 32 + 1

/-- one round; the loop variables are MK and the last block -/
def akaPrfRound (C : Crypto) (key sBase : Bytes) (st : Bytes × Bytes) (i : Nat) : Bytes × Bytes :=
  let hexNum := UInt8.ofNat (i + 1)
  let sBaseWithNum := sBase ++ [hexNum]
  let sha := ((Hash.new .sha256 key).write (st.2 ++ sBaseWithNum)).sum C
  (st.1 ++ sha, sha)

/-- `for i := 0; i < n; i++` -/
def akaPrfRounds (C : Crypto) (key sBase : Bytes) (n : Nat) : Bytes × Bytes :=
  (List.range n).foldl (akaPrfRound C key sBase) ([], [])

/-- the five parts of MK -/
def cutAkaPrimeKeys (mk : Bytes) : Outcome AkaPrimeKeys := do
  let k_encr ← (Slice.ofList mk).slice 0 16
  let k_aut ← (Slice.ofList mk).slice 16 48
  let k_re ← (Slice.ofList mk).slice 48 80
  let msk ← (Slice.ofList mk).slice 80 144
  let emsk ← (Slice.ofList mk).slice 144 208
  pure { k_encr := k_encr.data, k_aut := k_aut.data, k_re := k_re.data, msk := msk.data,
         emsk := emsk.data }

/-- `identity` are the octets of the string -/
def eapAkaPrimePRF (C : Crypto) (ikPrime ckPrime identity : Bytes) : Outcome AkaPrimeKeys :=
  if ikPrime.length = 0 ∨ ckPrime.length = 0 then fail "EAP-AKA' PRF: invalid input key length"
  else
    let key := ikPrime ++ ckPrime
    let sBase := akaPrimeLabel ++ identity
    let mk := (akaPrfRounds C key sBase prfRounds).1
    if mk.length < 208 then fail "EAP-AKA' PRF: insufficient key material generated"
    else cutAkaPrimeKeys mk

/-- K_encr | K_aut | K_re | MSK | EMSK -/
def AkaPrimeKeys.octets (k : AkaPrimeKeys) : Bytes := k.k_encr ++ k.k_aut ++ k.k_re ++ k.msk ++ k.emsk

/-! ## the rounds -/

theorem akaPrfRounds_eq (C : Crypto) (key sBase : Bytes) (n : Nat) :
    akaPrfRounds C key sBase n =
      (chainBlocks (C.hmac .sha256 key) sBase n, chainBlock (C.hmac .sha256 key) sBase n) := by
  induction n with
  | zero => rfl
  | succ n ih =>
    have hstep : akaPrfRounds C key sBase (n + 1) =
        akaPrfRound C key sBase (akaPrfRounds C key sBase n) n := by
      rw [akaPrfRounds, List.range_succ, List.foldl_append]
      rfl
    rw [hstep, ih, chainBlocks_succ, chainBlock, List.append_assoc]
    rfl

theorem take_append_between {α : Type} (l : List α) {i j : Nat} (h : i ≤ j) :
    l.take i ++ (l.take j).drop i = l.take j := by
  have hcut := List.take_append_drop i (l.take j)
  rw [List.take_take, Nat.min_eq_left h] at hcut
  exact hcut

structure AkaPrimeKeys.Sizes (k : AkaPrimeKeys) : Prop where
  k_encr : k.k_encr.length = 16
  k_aut : k.k_aut.length = 32
  k_re : k.k_re.length = 32
  msk : k.msk.length = 64
  emsk : k.emsk.length = 64

theorem cutAkaPrimeKeys_ok (mk : Bytes) (h : 208 ≤ mk.length) :
    ∃ k, cutAkaPrimeKeys mk = .ok k ∧ k.octets = mk.take 208 ∧ k.Sizes := by
  have hslice : ∀ i j, i ≤ j → j ≤ 208 → (Slice.ofList mk).slice i j =
      .ok ⟨(mk.take j).drop i, mk.drop j ++ []⟩ :=
    fun i j hij hj => Slice.slice_data _ hij (Nat.le_trans hj h)
  have hlen : ∀ i j, j ≤ 208 → ((mk.take j).drop i).length = j - i := by
    intro i j hj
    rw [List.length_drop, List.length_take]
    omega
  refine ⟨⟨(mk.take 16).drop 0, (mk.take 48).drop 16, (mk.take 80).drop 48, (mk.take 144).drop 80,
    (mk.take 208).drop 144⟩, ?_, ?_, ?_⟩
  · rw [cutAkaPrimeKeys, hslice 0 16 (by decide) (by decide), hslice 16 48 (by decide) (by decide),
      hslice 48 80 (by decide) (by decide), hslice 80 144 (by decide) (by decide),
      hslice 144 208 (by decide) (by decide)]
    rfl
  · rw [AkaPrimeKeys.octets, List.drop_zero, take_append_between mk (by decide),
      take_append_between mk (by decide), take_append_between mk (by decide),
      take_append_between mk (by decide)]
  · exact ⟨hlen 0 16 (by decide), hlen 16 48 (by decide), hlen 48 80 (by decide),
      hlen 80 144 (by decide), hlen 144 208 (by decide)⟩

/-! ## the two streams -/

theorem eapAkaPrimePRF_eq {C : Crypto} (hC : C.Sized) {ikPrime ckPrime : Bytes} (hik : ikPrime ≠ [])
    (hck : ckPrime ≠ []) (identity : Bytes) :
    ∃ k, eapAkaPrimePRF C ikPrime ckPrime identity = .ok k ∧ k.Sizes ∧
      k.octets = chainStream (C.hmac .sha256 (ikPrime ++ ckPrime)) (akaPrimeLabel ++ identity) 208 := by
  have hne : ¬ (ikPrime.length = 0 ∨ ckPrime.length = 0) := by
    simp only [List.length_eq_zero_iff]
    exact fun h => h.elim hik hck
  have hsize : ∀ d, (C.hmac .sha256 (ikPrime ++ ckPrime) d).length = 32 := hC .sha256 _
  have hmk : (akaPrfRounds C (ikPrime ++ ckPrime) (akaPrimeLabel ++ identity) prfRounds).1 =
      chainBlocks (C.hmac .sha256 (ikPrime ++ ckPrime)) (akaPrimeLabel ++ identity) 7 := by
    rw [akaPrfRounds_eq]
    rfl
  have hlen := length_chainBlocks (akaPrimeLabel ++ identity) hsize 7
  obtain ⟨k, hk, hoct, hsizes⟩ := cutAkaPrimeKeys_ok (chainBlocks
    (C.hmac .sha256 (ikPrime ++ ckPrime)) (akaPrimeLabel ++ identity) 7) (by omega)
  refine ⟨k, ?_, hsizes, ?_⟩
  · rw [eapAkaPrimePRF, if_neg hne]
    dsimp only
    rw [hmk, if_neg (by omega), hk]
  · rw [hoct]
    exact take_chainBlocks _ hsize (by decide) (by decide)

/-- **`PrfPlus` and `EapAkaPrimePRF` compute the same iterated hash.**  For every hash with octets,
`PrfPlus` ends with the first octets of `T1 | T2 | ..`, so that a shorter stream is a prefix of a longer
one, whatever was written to the objects before; and the keys of EAP-AKA' are 208 octets of it, for
HMAC-SHA-256 with the key IK' | CK' and the seed `"EAP-AKA'"` | identity. -/
theorem streams_agree {C : Crypto} (hC : C.Sized) :
    (∀ (σ : Type) (M : HashMethods σ) (keyed : σ → Prop) (H : Bytes → Bytes) (n : Nat),
      M.Computes keyed H n → 0 < n → ∀ (s : Bytes) (streamLen : Nat) (prf : σ), keyed prf →
        ∃ stream, (prfPlus M s streamLen prf).1 = .ok stream ∧
          (∀ k, streamLen ≤ k * n → stream = (chainBlocks H s k).take streamLen) ∧
          ∀ m prf', m ≤ streamLen → keyed prf' → (prfPlus M s m prf').1 = .ok (stream.take m)) ∧
    ∀ ikPrime ckPrime identity, ikPrime ≠ [] → ckPrime ≠ [] →
      ∃ k, eapAkaPrimePRF C ikPrime ckPrime identity = .ok k ∧ k.Sizes ∧
        (prfPlus (Hash.methods C) (akaPrimeLabel ++ identity) 208
          (Hash.new .sha256 (ikPrime ++ ckPrime))).1 = .ok k.octets := by
  constructor
  · intro σ M keyed H n hM hn s streamLen prf hprf
    obtain ⟨_, hstream, _⟩ := prfPlus_eq hM s hn streamLen prf hprf
    refine ⟨chainStream H s streamLen, by rw [hstream], ?_, ?_⟩
    · intro k hk
      exact (take_chainBlocks s hM.length hn hk).symm
    · intro m prf' hm hprf'
      obtain ⟨_, hshort, _⟩ := prfPlus_eq hM s hn m prf' hprf'
      rw [hshort, take_chainStream s hM.length hn hm]
  · intro ikPrime ckPrime identity hik hck
    obtain ⟨k, hk, hsizes, hoct⟩ := eapAkaPrimePRF_eq hC hik hck identity
    obtain ⟨_, hstream, _⟩ := prfPlus_eq (Hash.methods_computes hC .sha256 (ikPrime ++ ckPrime))
      (akaPrimeLabel ++ identity) (by decide) 208 (Hash.new .sha256 (ikPrime ++ ckPrime)) ⟨rfl, rfl⟩
    exact ⟨k, hk, hsizes, by rw [hstream, hoct]⟩

/-- IK', CK' and identity of the test of the package -/
def testIkPrime : Bytes := octets 16 0x4bf4f64b21b59444277f2c60c417d4c7
def testCkPrime : Bytes := octets 16 0x403075840723643618b6fae83236c86d
def testIdentity : Bytes := octets 15 0x323038393330313233343536373839

/-- the seven blocks for them, and three blocks of HMAC-SHA-1 with the key `[1]` and the seed `[5, 6]` -/
def streamCrypto : Crypto :=
  Crypto.ofTable
    (chainEntries .sha256 (testIkPrime ++ testCkPrime) (akaPrimeLabel ++ testIdentity) [] 1
      [octets 32 0xd2e0e54aa01d48959e38ca1aff6c38fba56e1733adf3747cfe045dacebedeb33,
        octets 32 0xdd53e0f5200f6697c0855e2f856c4e40c362f256003483d0766bf87719174125,
        octets 32 0x4446986158e66d57fcdc251d531fdec4e6ad162cd2fbcf3b6df5765b51e8983f,
        octets 32 0x5fb3204d16930c9bbbef5a971cf1de7c1c60f79516b4efe1b937ce510a3e52c1,
        octets 32 0x61d6c6db3f03a62a93e33a53cc15bb70f74892a2343d64de4528bd0cbbf12edf,
        octets 32 0x03b47adbc72e7839175af598d87cc7d33cf0671517eb051345946b978e7afc9b,
        octets 32 0x48327e90f816e67efddc5949adab08ad9f90e412faf391f47842bbfb88a3c48d] ++
      chainEntries .sha1 [1] [5, 6] [] 1
        [octets 20 0xf07a02b9039a82b6158ddf62f2ea301712d800c9,
          octets 20 0x2c18f34c71376d12b082620c55a3cfa6905cc42c,
          octets 20 0x4dabc0d35dcddf72ee3b9ab9c2d810dffd26fd5b]) [] []

/-- the keys of that test; and two hash objects with the same key, one of them in use -/
theorem streams_agree_vector :
    (∃ k, eapAkaPrimePRF streamCrypto testIkPrime testCkPrime testIdentity = .ok k ∧ k.Sizes ∧
      k.k_encr = octets 16 0xd2e0e54aa01d48959e38ca1aff6c38fb ∧
      (prfPlus (Hash.methods streamCrypto) (akaPrimeLabel ++ testIdentity) 208
        (Hash.new .sha256 (testIkPrime ++ testCkPrime))).1 = .ok k.octets) ∧
    ∃ stream, (prfPlus (Hash.methods streamCrypto) [5, 6] 50 ⟨.sha1, [1], [9, 9]⟩).1 = .ok stream ∧
      stream.take 20 = octets 20 0xf07a02b9039a82b6158ddf62f2ea301712d800c9 ∧
      (prfPlus (Hash.methods streamCrypto) [5, 6] 30 ⟨.sha1, [1], []⟩).1 = .ok (stream.take 30) := by
  have hsized : streamCrypto.Sized := Crypto.ofTable_sized _ _ _
  obtain ⟨hprf, haka⟩ := streams_agree hsized
  obtain ⟨k, hk, hsizes, hsame⟩ := haka testIkPrime testCkPrime testIdentity (by decide) (by decide)
  have hkey : AkaPrimeKeys.k_encr <$> eapAkaPrimePRF streamCrypto testIkPrime testCkPrime testIdentity =
      .ok (octets 16 0xd2e0e54aa01d48959e38ca1aff6c38fb) := by decide +kernel
  rw [hk] at hkey
  obtain ⟨stream, hstream, _, hshort⟩ := hprf Hash (Hash.methods streamCrypto) _ _ _
    (Hash.methods_computes hsized .sha1 [1]) (by decide) [5, 6] 50 ⟨.sha1, [1], [9, 9]⟩ ⟨rfl, rfl⟩
  have hfirst : (fun s => s.take 20) <$>
      (prfPlus (Hash.methods streamCrypto) [5, 6] 50 ⟨.sha1, [1], [9, 9]⟩).1 =
        .ok (octets 20 0xf07a02b9039a82b6158ddf62f2ea301712d800c9) := by decide +kernel
  rw [hstream] at hfirst
  exact ⟨⟨k, hk, hsizes, Outcome.ok.inj hkey, hsame⟩, stream, hstream, Outcome.ok.inj hfirst,
    hshort 30 _ (by decide) ⟨rfl, rfl⟩⟩

end Ike

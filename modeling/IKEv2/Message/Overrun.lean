import IKEv2.Message.Proposals

/-!
# Where the decoder of security associations leaves its records

Lengths are compared with all the data that are left, not with the record they belong to, and some
of the sums wrap.

* `SecurityAssociation.unmarshal_returns_iff`   the octets on which the decoder stops the program;
* `transforms_own_octets_iff`                   the payloads whose transforms are read from their
                                                own octets alone.
-/

set_option linter.unusedVariables false

namespace Ike
open GoLang

/-! ## one transform -/

/-- a transform that is read; `r` is what is behind it in its proposal -/
def TransformGood (a r : Bytes) : Prop :=
  8 < a.length → 12 ≤ (a ++ r).length ∧
    (wireFormat (a ++ r) = 0 → 12 + (wordAt (a ++ r) 10).toNat = a.length)

/-- a variable length attribute that ends before it begins: `12 + attributeLength` wraps to the
length of the transform -/
def TransformBad (a r : Bytes) : Prop :=
  8 < a.length ∧ a.length < 12 ∧ 12 ≤ (a ++ r).length ∧ wireFormat (a ++ r) = 0 ∧
    (wordAt (a ++ r) 10).toNat = 65524 + a.length

theorem twelve_add_eq {w L : UInt16} : 12 + w = L ↔ (12 + w.toNat) % 65536 = L.toNat := by
  rw [← UInt16.toNat_inj, UInt16.toNat_add]
  rfl

theorem readTransform_good {a : Bytes} (ha : LenRec 8 a) (r sp : Bytes) :
    (∃ t, readTransform ⟨a ++ r, sp⟩ (UInt16.ofNat a.length) = .ok t) ↔ TransformGood a r := by
  obtain ⟨h8, hL, hle⟩ := lenRec_bounds ha r
  have hmax : a.length < 65536 := by rw [← hL]; exact UInt16.toNat_lt _
  have hw : (wordAt (a ++ r) 10).toNat < 65536 := (wordAt (a ++ r) 10).toNat_lt
  rw [readTransform_eq h8 hle, hL]
  by_cases hp : a.length ≤ 8
  · rw [if_pos hp]
    exact iff_of_true ⟨_, rfl⟩ fun h => absurd hp (by omega)
  rw [if_neg hp]
  have hlen : a.length ≤ (a ++ r).length := by rw [List.length_append]; omega
  by_cases h12 : (a ++ r).length < 12
  · have hno : ¬ TransformGood a r := fun h => absurd (h (by omega)).1 (by omega)
    rw [if_pos h12, if_pos h12]
    refine iff_of_false ?_ hno
    intro ⟨t, ht⟩
    split at ht
    · exact fail_ne_ok _ _ ht
    split at ht <;> exact fail_ne_ok _ _ ht
  rw [if_neg (show ¬ (a ++ r).length < 10 by omega), if_neg h12, if_neg h12]
  by_cases hf : wireFormat (a ++ r) = 0
  · rw [if_pos hf]
    by_cases he : 12 + wordAt (a ++ r) 10 ≠ UInt16.ofNat a.length
    · rw [if_pos he]
      refine iff_of_false (fun ⟨t, ht⟩ => fail_ne_ok _ _ ht) fun h => he ?_
      rw [twelve_add_eq, (h (by omega)).2 hf, hL]
      omega
    · rw [if_neg he]
      have hs := twelve_add_eq.mp (not_not.mp he)
      rw [hL] at hs
      by_cases hlt : a.length < 12
      · rw [if_pos hlt]
        refine iff_of_false (fun ⟨t, ht⟩ => absurd ht (by simp)) fun h => ?_
        have := (h (by omega)).2 hf
        omega
      · rw [if_neg hlt]
        exact iff_of_true ⟨_, rfl⟩ fun _ => ⟨by omega, fun _ => by omega⟩
  · rw [if_neg hf]
    exact iff_of_true ⟨_, rfl⟩ fun _ => ⟨by omega, fun h => absurd h hf⟩

theorem readTransform_returns {a : Bytes} (ha : LenRec 8 a) (r sp : Bytes) :
    (readTransform ⟨a ++ r, sp⟩ (UInt16.ofNat a.length)).returns ↔ ¬ TransformBad a r := by
  obtain ⟨h8, hL, hle⟩ := lenRec_bounds ha r
  have hw : (wordAt (a ++ r) 10).toNat < 65536 := (wordAt (a ++ r) 10).toNat_lt
  have hlen : a.length ≤ (a ++ r).length := by rw [List.length_append]; omega
  rw [readTransform_eq h8 hle, hL]
  by_cases hbad : TransformBad a r
  · obtain ⟨hp, hlt, h12, hf, hval⟩ := hbad
    have he : 12 + wordAt (a ++ r) 10 = UInt16.ofNat a.length := by
      rw [twelve_add_eq, hval, hL]
      omega
    rw [if_neg (by omega), if_neg (by omega), if_pos hf, if_neg (by omega),
      if_neg (not_not_intro he), if_pos hlt]
    exact iff_of_false id (not_not_intro ⟨hp, hlt, h12, hf, hval⟩)
  · refine iff_of_true ?_ hbad
    split
    · trivial
    split
    · trivial
    split
    · split
      · trivial
      split
      · trivial
      split
      · next hp h10 hf h12 he hlt =>
        have hs := twelve_add_eq.mp (not_not.mp he)
        rw [hL] at hs
        exact hbad ⟨by omega, hlt, by omega, hf, by omega⟩
      · trivial
    · split <;> trivial

/-! ## one proposal -/

/-- the transforms of a proposal, as its SPI size puts them -/
def transformOctets (a : Bytes) : Bytes := a.drop (8 + (a.getD 6 0).toNat)

def ProposalGood (a r : Bytes) : Prop :=
  (a.getD 6 0).toNat < 248 ∧ 8 + (a.getD 6 0).toNat ≤ a.length ∧
    LenRun 8 TransformGood (transformOctets a)

/-- the SPI size wraps, or the SPI ends behind the proposal but inside the data, or a transform of
the proposal is bad -/
def ProposalBad (a r : Bytes) : Prop :=
  248 ≤ (a.getD 6 0).toNat ∨
    (a.length < 8 + (a.getD 6 0).toNat ∧ 8 + (a.getD 6 0).toNat ≤ (a ++ r).length) ∨
    8 + (a.getD 6 0).toNat ≤ a.length ∧ LenHits 8 TransformGood TransformBad (transformOctets a)

theorem addTransform_good (p : Proposal) (a r sp : Bytes) (ha : LenRec 8 a) :
    (∃ p', p.add <$> readTransform ⟨a ++ r, sp⟩ (UInt16.ofNat a.length) = .ok p') ↔
      TransformGood a r := by
  rw [Outcome.exists_map_eq_ok]
  exact readTransform_good ha r sp

theorem addTransform_returns (p : Proposal) (a r sp : Bytes) (ha : LenRec 8 a) :
    (p.add <$> readTransform ⟨a ++ r, sp⟩ (UInt16.ofNat a.length)).returns ↔
      ¬ TransformBad a r := by
  rw [Outcome.returns_map]
  exact readTransform_returns ha r sp

theorem readProposal_good {a : Bytes} (ha : LenRec 8 a) (r sp : Bytes) :
    (∃ p, readProposal ⟨a ++ r, sp⟩ (UInt16.ofNat a.length) = .ok p) ↔ ProposalGood a r := by
  rw [readProposal_eq ha]
  by_cases hw : 248 ≤ (a.getD 6 0).toNat
  · rw [if_pos hw]
    exact iff_of_false (fun ⟨p, hp⟩ => absurd hp (by simp)) fun h => absurd h.1 (by omega)
  rw [if_neg hw]
  by_cases hd : (a ++ r).length < 8 + (a.getD 6 0).toNat
  · rw [if_pos hd]
    refine iff_of_false (fun ⟨p, hp⟩ => fail_ne_ok _ _ hp) fun h => absurd h.2.1 ?_
    rw [List.length_append] at hd
    omega
  rw [if_neg hd]
  by_cases hin : a.length < 8 + (a.getD 6 0).toNat
  · rw [if_pos hin]
    exact iff_of_false (fun ⟨p, hp⟩ => absurd hp (by simp)) fun h => absurd h.2.1 (by omega)
  · rw [if_neg hin, Outcome.exists_map_eq_ok, transformRound,
      lenLoop_ok_iff (by omega) _ _ _ addTransform_good]
    exact ⟨fun h => ⟨by omega, by omega, h⟩, fun h => h.2.2⟩

theorem readProposal_returns {a : Bytes} (ha : LenRec 8 a) (r sp : Bytes) :
    (readProposal ⟨a ++ r, sp⟩ (UInt16.ofNat a.length)).returns ↔ ¬ ProposalBad a r := by
  rw [readProposal_eq ha]
  by_cases hw : 248 ≤ (a.getD 6 0).toNat
  · rw [if_pos hw]
    exact iff_of_false id (not_not_intro (.inl hw))
  rw [if_neg hw]
  by_cases hd : (a ++ r).length < 8 + (a.getD 6 0).toNat
  · rw [if_pos hd]
    have hla : a.length ≤ (a ++ r).length := by rw [List.length_append]; omega
    refine iff_of_true trivial fun h => ?_
    rcases h with h | h | h <;> omega
  rw [if_neg hd]
  by_cases hin : a.length < 8 + (a.getD 6 0).toNat
  · rw [if_pos hin]
    exact iff_of_false id (not_not_intro (.inr (.inl ⟨hin, by omega⟩)))
  · rw [if_neg hin, Outcome.returns_map, transformRound,
      lenLoop_returns_iff (by omega) _ _ _ addTransform_good addTransform_returns]
    refine not_congr ⟨fun h => .inr (.inr ⟨by omega, h⟩), fun h => ?_⟩
    rcases h with h | h | h
    · exact absurd h hw
    · exact absurd h.1 hin
    · exact h.2

/-! ## the payload -/

/-- a proposal that stops the decoder, behind proposals that are read -/
def Overruns (b : Bytes) : Prop := LenHits 8 ProposalGood ProposalBad b

/-- **The octets on which the decoder stops the program.** -/
theorem SecurityAssociation.unmarshal_returns_iff (sa : SecurityAssociation) (b sp : Bytes) :
    (sa.unmarshal ⟨b, sp⟩).returns ↔ ¬ Overruns b := by
  have hloop : (peelLoop proposalRound (⟨b, sp⟩, sa.proposals)).returns ↔ ¬ Overruns b := by
    refine lenLoop_returns_iff (by omega) _ _ _ (fun ps a r sp ha => ?_)
      (fun ps a r sp ha => ?_) b sp sa.proposals
    · rw [Outcome.exists_map_eq_ok]
      exact readProposal_good ha r sp
    · rw [Outcome.returns_map]
      exact readProposal_returns ha r sp
  have hmap : sa.unmarshal ⟨b, sp⟩ = (fun s => ⟨s.2⟩) <$>
      peelLoop proposalRound (⟨b, sp⟩, sa.proposals) := by
    rw [SecurityAssociation.unmarshal, map_eq_pure_bind]
  rw [hmap, Outcome.returns_map]
  exact hloop

/-- an SPI size of 248; an SPI that ends in the next proposal; an attribute of 65533 octets in a
transform of 9 -/
theorem SecurityAssociation.unmarshal_panics :
    SecurityAssociation.unmarshal ⟨[]⟩ (Slice.ofList [0, 0, 0, 8, 1, 1, 248, 0]) =
      .panic .sliceOutOfRange ∧
    SecurityAssociation.unmarshal ⟨[]⟩ (Slice.ofList [2, 0, 0, 8, 1, 1, 4, 0, 0, 0, 0, 8]) =
      .panic .sliceOutOfRange ∧
    SecurityAssociation.unmarshal ⟨[]⟩ (Slice.ofList
      [0, 0, 0, 20, 1, 1, 0, 1, 0, 0, 0, 9, 1, 0, 0, 12, 0, 14, 255, 253]) =
      .panic .sliceOutOfRange := by
  decide +kernel

/-! ## which octets decide a transform -/

theorem wordAt_append {a : Bytes} {i : Nat} (h : i + 1 < a.length) (r : Bytes) :
    wordAt (a ++ r) i = wordAt a i := by
  rw [wordAt, List.getD_append _ _ _ _ (by omega), List.getD_append _ _ _ _ h]
  rfl

/-- without an attribute, or with twelve octets of its own, a transform is read from its record -/
theorem readTransform_own {a : Bytes} (ha : LenRec 8 a) (hlen : a.length = 8 ∨ 12 ≤ a.length)
    (r : Bytes) :
    readTransform ⟨a ++ r, []⟩ (UInt16.ofNat a.length) =
      readTransform ⟨a, []⟩ (UInt16.ofNat a.length) := by
  obtain ⟨h8, hL, hle⟩ := lenRec_bounds ha r
  have hla : (a ++ r).length = a.length + r.length := List.length_append
  have h4 : (a ++ r).getD 4 0 = a.getD 4 0 := List.getD_append _ _ _ _ (by omega)
  rw [readTransform_eq h8 hle, readTransform_eq ha.1 (by omega), hL]
  rcases hlen with he | hge
  · rw [if_pos (by omega), if_pos (by omega), bareTransform, h4, wordAt_append (by omega)]
    rfl
  · have hf : wireFormat (a ++ r) = wireFormat a := by
      rw [wireFormat, List.getD_append _ _ _ _ (by omega)]
      rfl
    have hat : ∀ v, attrTransform (a ++ r) v = attrTransform a v := by
      intro v
      rw [attrTransform, h4, hf, wordAt_append (by omega), wordAt_append (by omega)]
      rfl
    have h8 : ¬ a.length ≤ 8 := by omega
    have h10 : ¬ (a ++ r).length < 10 ∧ ¬ a.length < 10 := by omega
    have h12 : ¬ (a ++ r).length < 12 ∧ ¬ a.length < 12 := by omega
    rw [hf, hat, hat, wordAt_append (show 10 + 1 < a.length by omega)]
    simp only [if_neg h8, if_neg h10.1, if_neg h10.2, if_neg h12.1, if_neg h12.2]

/-- a transform is read from the octets 4 to 11, whichever record they belong to -/
theorem readTransform_congr {d d' : Bytes} {L : UInt16} (h8 : 8 ≤ d.length)
    (hL : L.toNat ≤ d.length) (hlen : d'.length = d.length)
    (hw : (d'.drop 4).take 8 = (d.drop 4).take 8) :
    readTransform ⟨d', []⟩ L = readTransform ⟨d, []⟩ L := by
  have hget : ∀ i, 4 ≤ i → i < 12 → d'.getD i 0 = d.getD i 0 := by
    intro i h4 h12
    have h := congrArg (fun l => l.getD (i - 4) 0) hw
    simp only [List.getD_eq_getElem?_getD, List.getElem?_take_of_lt (show i - 4 < 8 by omega),
      List.getElem?_drop, show 4 + (i - 4) = i by omega] at h
    rw [List.getD_eq_getElem?_getD, List.getD_eq_getElem?_getD, h]
  have hword : ∀ i, 4 ≤ i → i + 1 < 12 → wordAt d' i = wordAt d i := by
    intro i h4 h12
    rw [wordAt, hget i h4 (by omega), hget (i + 1) (by omega) h12]
    rfl
  have hbare : bareTransform d' = bareTransform d := by
    rw [bareTransform, hget 4 (by omega) (by omega), hword 6 (by omega) (by omega)]
    rfl
  have hf : wireFormat d' = wireFormat d := by
    rw [wireFormat, hget 8 (by omega) (by omega)]
    rfl
  have hattr : ∀ v, attrTransform d' v = attrTransform d v := by
    intro v
    rw [attrTransform, hget 4 (by omega) (by omega), hf, hword 6 (by omega) (by omega),
      hword 8 (by omega) (by omega)]
    rfl
  rw [readTransform_eq (by omega) (by omega), readTransform_eq h8 hL, hlen, hbare, hf, hattr,
    hattr, hword 10 (by omega) (by omega)]

theorem toNat_wordAt (d : Bytes) (i : Nat) :
    (wordAt d i).toNat = (d.getD i 0).toNat * 256 + (d.getD (i + 1) 0).toNat := by
  have h1 : (d.getD i 0).toNat < 256 := UInt8.toNat_lt _
  have h2 : (d.getD (i + 1) 0).toNat < 256 := UInt8.toNat_lt _
  exact UInt16.toNat_ofNat_of_lt' (show _ < 65536 by omega)

/-- the attribute shows the octets 9 (without its top bit), 10 and 11 -/
theorem octets_of_attrTransform {d d' : Bytes}
    (h : attrTransform d (wordAt d 10) = attrTransform d' (wordAt d' 10)) :
    (d.getD 9 0).toNat % 128 = (d'.getD 9 0).toNat % 128 ∧
      (d.getD 10 0).toNat = (d'.getD 10 0).toNat ∧ (d.getD 11 0).toNat = (d'.getD 11 0).toNat := by
  have ht : (wordAt d 8 &&& 0x7f).toNat = (wordAt d' 8 &&& 0x7f).toNat :=
    congrArg (fun t => t.attributeType.toNat) h
  have hv : (wordAt d 10).toNat = (wordAt d' 10).toNat :=
    congrArg (fun t => t.attributeValue.toNat) h
  have h8 : ∀ d : Bytes, (wordAt d 8).toNat = (d.getD 8 0).toNat * 256 + (d.getD 9 0).toNat :=
    fun d => toNat_wordAt d 8
  have h10 : ∀ d : Bytes, (wordAt d 10).toNat = (d.getD 10 0).toNat * 256 + (d.getD 11 0).toNat :=
    fun d => toNat_wordAt d 10
  rw [and_7f, and_7f, h8, h8] at ht
  rw [h10, h10] at hv
  have h1 : (d.getD 11 0).toNat < 256 := UInt8.toNat_lt _
  have h2 : (d'.getD 11 0).toNat < 256 := UInt8.toNat_lt _
  exact ⟨by omega, by omega, by omega⟩

/-- the marker octet of the transform behind it, which no decoder looks at, decides the attribute of
a transform of 9, 10 or 11 octets -/
theorem readTransform_short {a : Bytes} (ha : LenRec 8 a) (h8 : 8 < a.length) (h12 : a.length < 12)
    {x : UInt8} {r : Bytes} {t : Transform}
    (h : readTransform ⟨a ++ x :: r, []⟩ (UInt16.ofNat a.length) = .ok t) :
    ∃ t', readTransform ⟨a ++ (x + 1) :: r, []⟩ (UInt16.ofNat a.length) = .ok t' ∧ t' ≠ t := by
  -- such a transform has a type/value attribute, and twelve octets are there
  have hread : ∀ y : UInt8, TransformGood a (y :: r) →
      readTransform ⟨a ++ y :: r, []⟩ (UInt16.ofNat a.length) =
        .ok (attrTransform (a ++ y :: r) (wordAt (a ++ y :: r) 10)) := by
    intro y hg
    obtain ⟨h8', hL, hle⟩ := lenRec_bounds ha (y :: r)
    obtain ⟨hlen, hf⟩ := hg h8
    rw [readTransform_eq h8' hle, hL, if_neg (by omega), if_neg (by omega),
      if_neg (fun h0 => absurd (hf h0) (by omega)), if_neg (by omega)]
  have hgood := (readTransform_good ha (x :: r) []).mp ⟨t, h⟩
  have hgood' : TransformGood a ((x + 1) :: r) := by
    intro _
    obtain ⟨hlen, hf⟩ := hgood h8
    rw [List.length_append] at hlen ⊢
    refine ⟨hlen, fun h0 => absurd (hf ?_) (by omega)⟩
    rw [wireFormat, List.getD_append _ _ _ _ h8] at h0 ⊢
    exact h0
  rw [hread x hgood] at h
  injection h with h
  refine ⟨_, hread (x + 1) hgood', fun he => ?_⟩
  obtain ⟨h9, h10, h11⟩ := octets_of_attrTransform (he.trans h.symm)
  have hget : ∀ y : UInt8, (a ++ y :: r).getD a.length 0 = y := by
    intro y
    rw [List.getD_append_right _ _ _ _ (Nat.le_refl _), Nat.sub_self]
    rfl
  have hx : (x + 1).toNat = (x.toNat + 1) % 256 := by rw [UInt8.toNat_add]; rfl
  have hx' : x.toNat < 256 := x.toNat_lt
  have e1 := hget x
  have e2 := hget (x + 1)
  have hn : a.length = 9 ∨ a.length = 10 ∨ a.length = 11 := by omega
  rcases hn with hn | hn | hn
  · rw [hn] at e1 e2
    rw [e1, e2] at h9
    omega
  · rw [hn] at e1 e2
    rw [e1, e2] at h10
    omega
  · rw [hn] at e1 e2
    rw [e1, e2] at h11
    omega

/-! ## the same structure with other octets -/

/-- proposals of the same length, with an SPI and transforms of the same lengths -/
def SameStructure (r r' : RawProposal) : Prop :=
  r.octets.length = r'.octets.length ∧ r.spiSize = r'.spiSize ∧
    r.transforms.map List.length = r'.transforms.map List.length

theorem length_flatten_of_map {as bs : List Bytes} (h : as.map List.length = bs.map List.length) :
    as.flatten.length = bs.flatten.length := by
  rw [List.length_flatten, List.length_flatten, h]

theorem take_flatten_cons {n : Nat} {a : Bytes} (h : n ≤ a.length) (as : List Bytes) :
    (a :: as).flatten.take n = a.take n :=
  List.take_append_of_le_length h

/-- another reading of transforms of the same lengths, with the same transform `j` decoded
differently; the first eight octets stay -/
theorem ReadTransforms.other {as : List Bytes} {ts : List Transform} (h : ReadTransforms as ts)
    {j : Nat} {a : Bytes} (ha : as[j]? = some a) (h8 : 8 < a.length) (h12 : a.length < 12) :
    ∃ as' ts', ReadTransforms as' ts' ∧ as'.map List.length = as.map List.length ∧
      as'.flatten.take 8 = as.flatten.take 8 ∧ as'[j]? = some a ∧ ts'[j]? ≠ ts[j]? := by
  induction h generalizing j with
  | nil => exact absurd ha (by simp)
  | @cons b as t ts hb hr htl ih =>
    have hb8 : 8 ≤ b.length := hb.1
    obtain ⟨hd8, hL, hle⟩ := lenRec_bounds hb as.flatten
    cases j with
    | zero =>
      have hba : b = a := by simpa using ha
      subst hba
      have hlen := ((readTransform_good hb as.flatten []).mp ⟨t, hr⟩ h8).1
      cases htl with
      | nil =>
        rw [List.flatten_nil, List.append_nil] at hlen
        omega
      | @cons c cs u us hc hru htl' =>
        obtain ⟨x, l, rfl⟩ := List.exists_cons_of_ne_nil (lenRec_ne_nil (by omega) hc)
        have hr' : readTransform ⟨b ++ x :: (l ++ cs.flatten), []⟩ (UInt16.ofNat b.length) =
            .ok t := hr
        obtain ⟨t', ht', hne⟩ := readTransform_short hb h8 h12 hr'
        obtain ⟨hc8, _, hcle⟩ := lenRec_bounds hc cs.flatten
        have hc' : LenRec 8 ((x + 1) :: l) := hc
        refine ⟨b :: ((x + 1) :: l) :: cs, t' :: u :: us, .cons hb ht' (.cons hc' ?_ htl'), rfl,
          ?_, rfl, ?_⟩
        · rw [← hru]
          exact readTransform_congr hc8 hcle rfl rfl
        · rw [take_flatten_cons hb8, take_flatten_cons hb8]
        · simpa using hne
    | succ j =>
      obtain ⟨as', ts', h1, h2, h3, h4, h5⟩ := ih (by simpa using ha)
      refine ⟨b :: as', t :: ts', .cons hb ?_ h1, ?_, ?_, by simpa using h4, by simpa using h5⟩
      · rw [← hr]
        refine readTransform_congr hd8 hle ?_ ?_
        · rw [List.length_append, List.length_append, length_flatten_of_map h2]
        · have h4' : as'.flatten.take 4 = as.flatten.take 4 := by
            have := congrArg (List.take 4) h3
            simpa [List.take_take] using this
          rw [List.drop_append_of_le_length (by omega), List.drop_append_of_le_length (by omega),
            List.take_append, List.take_append]
          congr 1
          rw [List.length_drop]
          have := congrArg (List.take (8 - (b.length - 4))) h4'
          rwa [List.take_take, List.take_take, Nat.min_eq_left (by omega)] at this
      · rw [List.map_cons, List.map_cons, h2]
      · rw [take_flatten_cons hb8, take_flatten_cons hb8]

theorem ReadProposal.other {r : RawProposal} {ts : List Transform} (h : ReadProposal r ts) {j : Nat}
    {a : Bytes} (ha : r.transforms[j]? = some a) (h8 : 8 < a.length) (h12 : a.length < 12) :
    ∃ r' ts', ReadProposal r' ts' ∧ SameStructure r r' ∧ r'.transforms[j]? = some a ∧
      ts'[j]? ≠ ts[j]? := by
  obtain ⟨as', ts', hread, hlens, _, ha', hne⟩ := h.reads.other ha h8 h12
  -- the header and the SPI stay
  have hspi := h.spi
  have hfront : (r.octets.take (8 + r.spiSize)).length = 8 + r.spiSize := by
    rw [List.length_take]
    omega
  have hsplit : r.octets.take (8 + r.spiSize) ++ r.transforms.flatten = r.octets := by
    rw [← h.split, List.take_append_drop]
  have hlen : (r.octets.take (8 + r.spiSize) ++ as'.flatten).length = r.octets.length := by
    rw [List.length_append, length_flatten_of_map hlens, ← List.length_append, hsplit]
  have hsize : (RawProposal.mk (r.octets.take (8 + r.spiSize) ++ as'.flatten) as').spiSize =
      r.spiSize := by
    have h1 : (r.octets.take (8 + r.spiSize) ++ as'.flatten).getD 6 0 = r.octets.getD 6 0 := by
      rw [List.getD_append _ _ _ _ (by omega),
        ← List.getD_append (r.octets.take (8 + r.spiSize)) r.transforms.flatten _ _ (by omega),
        hsplit]
    rw [RawProposal.spiSize, h1]
    rfl
  have hrec : LenRec 8 (r.octets.take (8 + r.spiSize) ++ as'.flatten) := by
    obtain ⟨hr8, hrl⟩ := h.lenRec
    refine ⟨by rw [hlen]; exact hr8, ?_⟩
    rw [hlen, lenField_append (by omega), ← lenField_append (r := r.transforms.flatten) (by omega),
      hsplit, hrl]
  refine ⟨⟨r.octets.take (8 + r.spiSize) ++ as'.flatten, as'⟩, ts', ⟨hrec, ?_, ?_, ?_, hread⟩,
    ⟨hlen.symm, hsize.symm, hlens.symm⟩, ha', hne⟩
  · rw [hsize]; exact h.small
  · rw [hsize]
    show _ ≤ (r.octets.take (8 + r.spiSize) ++ as'.flatten).length
    rw [hlen]
    exact hspi
  · rw [hsize]
    exact List.drop_left' hfront

/-- the octets of transform `j` of proposal `i` -/
def substructure (rs : List RawProposal) (i j : Nat) : Option Bytes :=
  (rs[i]?).bind fun r => r.transforms[j]?

def decodedAt (tss : List (List Transform)) (i j : Nat) : Option Transform :=
  (tss[i]?).bind fun ts => ts[j]?

theorem sameStructure_refl (r : RawProposal) : SameStructure r r := ⟨rfl, rfl, rfl⟩

theorem readProposals_other {rs : List RawProposal} {tss : List (List Transform)}
    (h : List.Forall₂ ReadProposal rs tss) {r : RawProposal} (hr : r ∈ rs) {a : Bytes}
    (ha : a ∈ r.transforms) (h8 : 8 < a.length) (h12 : a.length < 12) :
    ∃ rs' tss' i j, List.Forall₂ ReadProposal rs' tss' ∧ List.Forall₂ SameStructure rs rs' ∧
      substructure rs i j = some a ∧ substructure rs' i j = some a ∧
      decodedAt tss' i j ≠ decodedAt tss i j := by
  induction h with
  | nil => exact absurd hr (by simp)
  | @cons q ts rs tss hq htl ih =>
    rcases List.mem_cons.mp hr with rfl | hr
    · obtain ⟨j, hj⟩ := List.mem_iff_getElem?.mp ha
      obtain ⟨r', ts', h1, h2, h3, h4⟩ := hq.other hj h8 h12
      exact ⟨r' :: rs, ts' :: tss, 0, j, .cons h1 htl,
        .cons h2 (List.forall₂_same.mpr fun q _ => sameStructure_refl q), hj, h3, h4⟩
    · obtain ⟨rs', tss', i, j, h1, h2, h3, h4, h5⟩ := ih hr
      refine ⟨q :: rs', ts :: tss', i + 1, j, .cons hq h1, .cons (sameStructure_refl q) h2, ?_, ?_,
        ?_⟩
      · simpa [substructure] using h3
      · simpa [substructure] using h4
      · simpa [decodedAt] using h5

theorem ReadTransforms.at {as : List Bytes} {ts : List Transform} (h : ReadTransforms as ts)
    {j : Nat} {a : Bytes} (ha : as[j]? = some a) :
    ∃ t r, ts[j]? = some t ∧ LenRec 8 a ∧
      readTransform ⟨a ++ r, []⟩ (UInt16.ofNat a.length) = .ok t := by
  induction h generalizing j with
  | nil => exact absurd ha (by simp)
  | @cons b as t ts hb hr _ ih =>
    cases j with
    | zero =>
      have hba : b = a := by simpa using ha
      subst hba
      exact ⟨t, as.flatten, rfl, hb, hr⟩
    | succ j => exact ih (by simpa using ha)

theorem readProposals_at {rs : List RawProposal} {tss : List (List Transform)}
    (h : List.Forall₂ ReadProposal rs tss) {i j : Nat} {a : Bytes}
    (ha : substructure rs i j = some a) :
    (∃ q ∈ rs, a ∈ q.transforms) ∧ ∃ t r, decodedAt tss i j = some t ∧ LenRec 8 a ∧
      readTransform ⟨a ++ r, []⟩ (UInt16.ofNat a.length) = .ok t := by
  induction h generalizing i with
  | nil => exact absurd ha (by simp [substructure])
  | @cons q ts rs tss hq _ ih =>
    cases i with
    | zero =>
      have hj : q.transforms[j]? = some a := ha
      exact ⟨⟨q, List.mem_cons_self .., List.mem_of_getElem? hj⟩, hq.reads.at hj⟩
    | succ i =>
      obtain ⟨⟨q', hq', hm⟩, h2⟩ := ih (by simpa [substructure] using ha)
      exact ⟨⟨q', List.mem_cons_of_mem _ hq', hm⟩, by simpa [decodedAt] using h2⟩

/-- `b` is taken apart into these proposals and transforms, and `sa` is made of them -/
structure DecodedAs (b : Bytes) (sa : SecurityAssociation) (rs : List RawProposal)
    (tss : List (List Transform)) : Prop where
  octets : b = rs.flatMap RawProposal.octets
  reads : List.Forall₂ ReadProposal rs tss
  result : sa.proposals = List.zipWith RawProposal.proposal rs tss

/-- in every accepted payload of the same structure, a kept transform with the same octets is
decoded to the same value -/
def OwnOctets (rs : List RawProposal) (tss : List (List Transform)) : Prop :=
  ∀ b' sp' sa' rs' tss', SecurityAssociation.unmarshal ⟨[]⟩ ⟨b', sp'⟩ = .ok sa' →
    DecodedAs b' sa' rs' tss' → List.Forall₂ SameStructure rs rs' →
    ∀ i j a, substructure rs i j = some a → knownTransform (a.getD 4 0) = true →
      substructure rs' i j = some a → decodedAt tss' i j = decodedAt tss i j

/-- **Transforms are read from their own octets** iff none that is kept has a length of 9, 10 or
11. -/
theorem transforms_own_octets_iff {b sp : Bytes} {sa : SecurityAssociation}
    (h : SecurityAssociation.unmarshal ⟨[]⟩ ⟨b, sp⟩ = .ok sa) :
    ∃ rs tss, DecodedAs b sa rs tss ∧
      (OwnOctets rs tss ↔ ∀ r ∈ rs, ∀ a ∈ r.known, a.length = 8 ∨ 12 ≤ a.length) := by
  obtain ⟨rs, tss, hb, hreads, hps⟩ := SecurityAssociation.unmarshal_iff.mp h
  refine ⟨rs, tss, ⟨hb, hreads, hps⟩, ?_, ?_⟩
  · intro hown r hr a ha
    obtain ⟨hmem, hknown⟩ := List.mem_filter.mp ha
    by_contra hshort
    have hrec : 8 ≤ a.length := by
      obtain ⟨ts, _, hts⟩ := forall₂_partner (R := flip ReadProposal) hreads.flip hr
      exact (hts.reads.lenRecs a hmem).1
    obtain ⟨rs', tss', i, j, h1, h2, h3, h4, h5⟩ :=
      readProposals_other hreads hr hmem (by omega) (by omega)
    exact h5 (hown _ [] ⟨_⟩ rs' tss' (SecurityAssociation.unmarshal_iff.mpr ⟨rs', tss', rfl, h1, rfl⟩)
      ⟨rfl, h1, rfl⟩ h2 i j a h3 hknown h4)
  · intro hlen b' sp' sa' rs' tss' _ hd' _ i j a ha hknown ha'
    obtain ⟨⟨q, hq, hm⟩, t, r, ht, hrec, hr⟩ := readProposals_at hreads ha
    obtain ⟨_, t', r', ht', _, hr'⟩ := readProposals_at hd'.reads ha'
    have hl := hlen q hq a (List.mem_filter.mpr ⟨hm, hknown⟩)
    rw [readTransform_own hrec hl] at hr hr'
    rw [hr] at hr'
    injection hr' with htt
    rw [ht, ht', htt]

/-- one proposal with two transforms: AES-CBC with its key length, and behind it one without attribute -/
def twoTransforms : Bytes :=
  [0, 0, 0, 28, 1, 1, 0, 2, 3, 0, 0, 12, 1, 0, 0, 12, 128, 14, 0, 128, 0, 0, 0, 8, 2, 0, 0, 5]

theorem transforms_own_octets_plain :
    ∃ rs tss, DecodedAs twoTransforms ⟨[((emptyProposal 1 1 []).add ⟨1, 12, true, 1, 14, 128, []⟩).add
      ⟨2, 5, false, 0, 0, 0, []⟩]⟩ rs tss ∧ OwnOctets rs tss := by
  obtain ⟨rs, tss, hdec, hiff⟩ := transforms_own_octets_iff (show SecurityAssociation.unmarshal ⟨[]⟩
    (Slice.ofList twoTransforms) = .ok ⟨[((emptyProposal 1 1 []).add ⟨1, 12, true, 1, 14, 128, []⟩).add
      ⟨2, 5, false, 0, 0, 0, []⟩]⟩ by decide +kernel)
  refine ⟨rs, tss, hdec, hiff.mpr fun r hr a ha => ?_⟩
  have hread : ∀ q ∈ rs, ∃ ts, ReadProposal q ts := fun q hq =>
    let ⟨ts, _, hts⟩ := forall₂_partner (R := flip ReadProposal) hdec.reads.flip hq
    ⟨ts, hts⟩
  -- the octets leave one reading only
  have hone : rs.map RawProposal.octets = [twoTransforms] := by
    refine lenRecs_unique (h := 8) (by omega) ?_ ?_ (by rw [← List.flatMap_def, ← hdec.octets]; rfl)
    · intro x hx
      obtain ⟨q, hq, rfl⟩ := List.mem_map.mp hx
      obtain ⟨ts, hts⟩ := hread q hq
      exact hts.lenRec
    · intro x hx
      rw [List.mem_singleton.mp hx]
      exact ⟨by decide, by decide⟩
  have hoct : r.octets = twoTransforms :=
    List.mem_singleton.mp (hone ▸ List.mem_map_of_mem hr)
  obtain ⟨ts, hts⟩ := hread r hr
  have hsplit := hts.split
  rw [RawProposal.spiSize, hoct] at hsplit
  have htwo : r.transforms =
      [[3, 0, 0, 12, 1, 0, 0, 12, 128, 14, 0, 128], [0, 0, 0, 8, 2, 0, 0, 5]] := by
    refine lenRecs_unique (h := 8) (by omega) hts.reads.lenRecs ?_ hsplit.symm
    intro x hx
    rcases List.mem_pair.mp hx with rfl | rfl
    · exact ⟨by decide, by decide⟩
    · exact ⟨by decide, by decide⟩
  have hmem := (List.mem_filter.mp ha).1
  rw [htwo] at hmem
  rcases List.mem_pair.mp hmem with rfl | rfl
  · exact .inr (by decide)
  · exact .inl (by decide)

/-- the attribute value of a transform of 10 octets is the first two octets of the next one -/
theorem transform_reads_next :
    (SecurityAssociation.unmarshal ⟨[]⟩ (Slice.ofList [0, 0, 0, 26, 1, 1, 0, 2,
        3, 0, 0, 10, 1, 0, 0, 12, 128, 14, 0, 0, 0, 8, 2, 0, 0, 5])).value.map
        (fun sa => sa.proposals.map Proposal.encryptionAlgorithm) =
      some [[⟨1, 12, true, 1, 14, 0, []⟩]] ∧
    (SecurityAssociation.unmarshal ⟨[]⟩ (Slice.ofList [0, 0, 0, 26, 1, 1, 0, 2,
        3, 0, 0, 10, 1, 0, 0, 12, 128, 14, 1, 0, 0, 8, 2, 0, 0, 5])).value.map
        (fun sa => sa.proposals.map Proposal.encryptionAlgorithm) =
      some [[⟨1, 12, true, 1, 14, 256, []⟩]] := by
  decide +kernel

end Ike

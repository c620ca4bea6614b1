import Mathlib.Algebra.Order.BigOperators.Group.List
import IKEv2.Message.Transforms

/-!
# Proposals and the Security Association payload

* `SecurityAssociation.unmarshal_iff`       what is accepted, and what is made of it;
* `SecurityAssociation.unmarshal_received`  what becomes of an encoded one;
* `SecurityAssociation.unmarshal_marshal`   regular proposals survive;
* `SecurityAssociation.marshal_ok_only`     what the encoder refuses.
-/

set_option linter.unusedVariables false

namespace Ike
open GoLang

/-! ## one proposal -/

/-- **The proposal at the front of the data**: an SPI size from 248 on wraps `8+spiSize`, and an SPI
that ends behind the proposal but inside the data leaves a slice that runs backwards. -/
theorem readProposal_eq {a : Bytes} (ha : LenRec 8 a) (rest sp : Bytes) :
    readProposal ⟨a ++ rest, sp⟩ (UInt16.ofNat a.length) =
      if 248 ≤ (a.getD 6 0).toNat then .panic .sliceOutOfRange
      else if (a ++ rest).length < 8 + (a.getD 6 0).toNat then
        fail "Proposal: No sufficient bytes for unmarshalling SPI of proposal"
      else if a.length < 8 + (a.getD 6 0).toNat then .panic .sliceOutOfRange
      else Prod.snd <$> peelLoop transformRound (⟨a.drop (8 + (a.getD 6 0).toNat), rest ++ sp⟩,
        emptyProposal (a.getD 4 0) (a.getD 5 0) ((a.drop 8).take (a.getD 6 0).toNat)) := by
  obtain ⟨h8, hL, _⟩ := lenRec_bounds ha rest
  have ha8 : 8 ≤ a.length := ha.1
  have hget : ∀ i < a.length, (a ++ rest).getD i 0 = a.getD i 0 := fun i hi =>
    List.getD_append _ _ _ _ hi
  unfold readProposal
  rw [Slice.index_getD (show 4 < (a ++ rest).length by omega) 0, Outcome.ok_bind,
    Slice.index_getD (show 5 < (a ++ rest).length by omega) 0, Outcome.ok_bind,
    Slice.index_getD (show 6 < (a ++ rest).length by omega) 0, Outcome.ok_bind,
    hget 4 (by omega), hget 5 (by omega), hget 6 (by omega), hL]
  generalize a.getD 6 0 = size
  have hs : size.toNat < 256 := size.toNat_lt
  have hsum : (8 + size).toNat = (8 + size.toNat) % 256 := by rw [UInt8.toNat_add]; rfl
  have hgt : size > 0 ↔ 0 < size.toNat := by
    show (0 : UInt8) < size ↔ _
    rw [UInt8.lt_iff_toNat_lt]
    rfl
  rw [hsum, Slice.len_mk]
  by_cases hw : 248 ≤ size.toNat
  · rw [if_pos hw, if_pos (hgt.mpr (by omega)), if_neg (by omega), Slice.slice_panic _ (by omega)]
    rfl
  rw [if_neg hw, show (8 + size.toNat) % 256 = 8 + size.toNat by omega]
  by_cases hlen : (a ++ rest).length < 8 + size.toNat
  · rw [if_pos hlen, if_pos (hgt.mpr (by omega)), if_pos hlen]
    rfl
  -- the SPI, also when it has no octet
  have hspi : (if size > 0 then
      Slice.data <$> (⟨a ++ rest, sp⟩ : Slice UInt8).slice 8 (8 + size.toNat)
      else Outcome.ok []) = .ok (((a ++ rest).take (8 + size.toNat)).drop 8) := by
    by_cases h0 : size > 0
    · rw [if_pos h0, Slice.slice_data _ (by omega) (Nat.not_lt.mp hlen)]
      rfl
    · have hz : size.toNat = 0 := by
        have := mt hgt.mpr h0
        omega
      rw [if_neg h0, hz, List.drop_take]
      rfl
  rw [if_neg hlen, if_neg hlen, hspi, Outcome.ok_bind]
  by_cases hin : a.length < 8 + size.toNat
  · rw [if_pos hin, Slice.slice_panic _ hin]
    rfl
  · rw [if_neg hin, Slice.slice_data _ (Nat.not_lt.mp hin)
        (by rw [Slice.len_mk, List.length_append]; omega)]
    simp only [Outcome.ok_bind, List.take_left, List.drop_left]
    rw [List.take_append_of_le_length (Nat.not_lt.mp hin), List.drop_take,
      Nat.add_sub_cancel_left]
    rfl

/-! ## the payload -/

/-- a proposal as it is on the wire: its octets and the octets of its transforms -/
structure RawProposal where
  octets : Bytes
  transforms : List Bytes

def RawProposal.spiSize (r : RawProposal) : Nat := (r.octets.getD 6 0).toNat

/-- the octets are a proposal with these transforms -/
structure RawProposal.Wellformed (r : RawProposal) : Prop where
  lenRec : LenRec 8 r.octets
  spi : 8 + r.spiSize ≤ r.octets.length
  split : r.octets.drop (8 + r.spiSize) = r.transforms.flatten
  lenRecs : ∀ a ∈ r.transforms, LenRec 8 a

/-- the transforms that are kept -/
def RawProposal.known (r : RawProposal) : List Bytes :=
  r.transforms.filter fun a => knownTransform (a.getD 4 0)

/-- what is kept of a proposal -/
structure ProposalOf (r : RawProposal) (p : Proposal) : Prop where
  wf : r.Wellformed
  small : r.spiSize < 248
  spi : p.spi.length = r.spiSize
  grouped : p.Grouped
  kept : ∃ ts, List.Forall₂ TransformOf r.known ts ∧ p.transformList.Perm ts

/-- a proposal that is read, with the transforms in the order of the wire -/
structure ReadProposal (r : RawProposal) (ts : List Transform) : Prop where
  lenRec : LenRec 8 r.octets
  small : r.spiSize < 248
  spi : 8 + r.spiSize ≤ r.octets.length
  split : r.octets.drop (8 + r.spiSize) = r.transforms.flatten
  reads : ReadTransforms r.transforms ts

/-- what is made of a proposal and its transforms -/
def RawProposal.proposal (r : RawProposal) (ts : List Transform) : Proposal :=
  ts.foldl Proposal.add (emptyProposal (r.octets.getD 4 0) (r.octets.getD 5 0)
    ((r.octets.drop 8).take r.spiSize))

theorem readProposal_iff {a : Bytes} (ha : LenRec 8 a) (rest sp : Bytes) {p : Proposal} :
    readProposal ⟨a ++ rest, sp⟩ (UInt16.ofNat a.length) = .ok p ↔
      ∃ as ts, ReadProposal ⟨a, as⟩ ts ∧ p = RawProposal.proposal ⟨a, as⟩ ts := by
  rw [readProposal_eq ha]
  constructor
  · intro h
    split at h
    · exact absurd h (by simp)
    split at h
    · exact absurd h (fail_ne_ok _ _)
    split at h
    · exact absurd h (by simp)
    obtain ⟨s, hs, rfl⟩ := Outcome.map_eq_ok.mp h
    obtain ⟨as, ts, hd, hr, rfl⟩ := transformLoop_iff.mp hs
    refine ⟨as, ts, ⟨ha, ?_, ?_, hd, hr⟩, rfl⟩
    · show (a.getD 6 0).toNat < 248
      omega
    · show 8 + (a.getD 6 0).toNat ≤ a.length
      omega
  · intro ⟨as, ts, h, hp⟩
    have h1 : (a.getD 6 0).toNat < 248 := h.small
    have h2 : 8 + (a.getD 6 0).toNat ≤ a.length := h.spi
    have h3 : a.drop (8 + (a.getD 6 0).toNat) = as.flatten := h.split
    rw [if_neg (by omega), if_neg (by rw [List.length_append]; omega), if_neg (by omega),
      transformLoop_iff.mpr ⟨as, ts, h3, h.reads, rfl⟩, hp]
    rfl

theorem proposalOf_readProposal {r : RawProposal} {ts : List Transform} (h : ReadProposal r ts) :
    ProposalOf r (r.proposal ts) := by
  have hspi : (r.proposal ts).spi = (r.octets.drop 8).take r.spiSize := by
    rw [RawProposal.proposal, foldl_add]
    rfl
  refine ⟨⟨h.lenRec, h.spi, h.split, h.reads.lenRecs⟩, h.small, ?_, grouped_foldl_add _ _ _ _,
    ts.filter fun t => knownTransform t.transformType, ?_, transformList_foldl_add ts _⟩
  · have := h.spi
    rw [hspi, List.length_take, List.length_drop]
    omega
  · refine List.rel_filter ?_ h.reads.forall₂
    intro x t hx
    dsimp only
    rw [hx.type]

def ProposalStep (ps : List Proposal) (a rest sp : Bytes) (ps' : List Proposal) : Prop :=
  LenRec 8 a ∧
    (fun p => ps ++ [p]) <$> readProposal ⟨a ++ rest, sp⟩ (UInt16.ofNat a.length) = .ok ps'

theorem proposalRound_reads : Reads proposalRound id ProposalStep :=
  lenRound_reads (by omega) _ _ _ _

theorem proposalStep_ne (ps : List Proposal) (a rest sp : Bytes) (ps' : List Proposal)
    (h : ProposalStep ps a rest sp ps') : id a ≠ [] := lenRec_ne_nil (by omega) h.1

theorem peel_proposals_iff {sp : Bytes} {as : List Bytes} {acc acc' : List Proposal} :
    Peel id ProposalStep sp acc as acc' ↔
      ∃ rs tss, as = rs.map RawProposal.octets ∧ List.Forall₂ ReadProposal rs tss ∧
        acc' = acc ++ List.zipWith RawProposal.proposal rs tss := by
  constructor
  · intro hp
    induction hp with
    | nil acc => exact ⟨[], [], rfl, .nil, by rw [List.zipWith_nil_left, List.append_nil]⟩
    | @cons acc acc1 acc2 a as hs _ ih =>
      obtain ⟨rs, tss, h1, h2, h3⟩ := ih
      obtain ⟨p, hp, rfl⟩ := Outcome.map_eq_ok.mp hs.2
      obtain ⟨raws, ts, hr, rfl⟩ := (readProposal_iff hs.1 _ _).mp hp
      refine ⟨⟨a, raws⟩ :: rs, ts :: tss, by rw [h1]; rfl, .cons hr h2, ?_⟩
      rw [h3, List.append_assoc]
      rfl
  · intro ⟨rs, tss, has, hf, hacc⟩
    subst has hacc
    induction hf generalizing acc with
    | nil => rw [List.zipWith_nil_left, List.append_nil]; exact .nil acc
    | @cons r ts rs tss hr _ ih =>
      have htl := @ih (acc ++ [r.proposal ts])
      rw [List.append_assoc] at htl
      refine .cons ⟨hr.lenRec, ?_⟩ htl
      rw [(readProposal_iff hr.lenRec _ _).mpr ⟨r.transforms, ts, hr, rfl⟩]
      rfl

/-- **Accepted security associations**: proposals one after the other, each of transforms; every
transform is added to the list of its type. -/
theorem SecurityAssociation.unmarshal_iff {sa sa' : SecurityAssociation} {d sp : Bytes} :
    sa.unmarshal ⟨d, sp⟩ = .ok sa' ↔
      ∃ rs tss, d = rs.flatMap RawProposal.octets ∧ List.Forall₂ ReadProposal rs tss ∧
        sa'.proposals = sa.proposals ++ List.zipWith RawProposal.proposal rs tss := by
  constructor
  · intro h
    obtain ⟨s, hs, h⟩ := Outcome.bind_eq_ok.mp h
    obtain ⟨as, ps, hp, rfl, rfl⟩ := (peelLoop_iff proposalRound_reads proposalStep_ne).mp hs
    obtain ⟨rs, tss, h1, h2, h3⟩ := peel_proposals_iff.mp hp
    injection h with h
    subst h
    exact ⟨rs, tss, by rw [h1, List.flatMap_map]; rfl, h2, h3⟩
  · intro ⟨rs, tss, hd, hf, hps⟩
    have hp : Peel id ProposalStep sp sa.proposals (rs.map RawProposal.octets) sa'.proposals :=
      peel_proposals_iff.mpr ⟨rs, tss, rfl, hf, hps⟩
    show (peelLoop proposalRound _ >>= _) = _
    rw [hd, (peelLoop_iff proposalRound_reads proposalStep_ne).mpr
      ⟨_, _, hp, by rw [List.flatMap_map]; rfl, rfl⟩]
    rfl

/-- what is kept of each proposal -/
theorem SecurityAssociation.unmarshal_raw {sa sa' : SecurityAssociation} {d sp : Bytes}
    (h : sa.unmarshal ⟨d, sp⟩ = .ok sa') :
    ∃ rs ps, d = rs.flatMap RawProposal.octets ∧ List.Forall₂ ProposalOf rs ps ∧
      sa'.proposals = sa.proposals ++ ps := by
  obtain ⟨rs, tss, hd, hf, hps⟩ := SecurityAssociation.unmarshal_iff.mp h
  refine ⟨rs, _, hd, ?_, hps⟩
  clear hps hd
  induction hf with
  | nil => exact .nil
  | cons hr _ ih => exact .cons (proposalOf_readProposal hr) ih

theorem SecurityAssociation.unmarshal_spare {sa sa' : SecurityAssociation} {d sp : Bytes}
    (sp' : Bytes) (h : sa.unmarshal ⟨d, sp⟩ = .ok sa') : sa.unmarshal ⟨d, sp'⟩ = .ok sa' :=
  SecurityAssociation.unmarshal_iff.mpr (SecurityAssociation.unmarshal_iff.mp h)

/-! ## what the decoder makes of encoded proposals -/

/-- the proposal at the other end -/
def Proposal.received (p : Proposal) : Proposal :=
  (p.transformList.map Transform.received).foldl Proposal.add
    (emptyProposal p.proposalNumber p.protocolID p.spi)

theorem Proposal.marshal_eq_ok {p : Proposal} {last : Bool} {o : Bytes}
    (h : p.marshal last = .ok o) :
    ∃ d l1 l2, emitLast Transform.marshal p.transformList = .ok d ∧
      o = (if last then 0 else 2) :: 0 :: l1 :: l2 :: p.proposalNumber :: p.protocolID ::
        UInt8.ofNat p.spi.length :: UInt8.ofNat p.transformList.length :: (p.spi ++ d) ∧
      LenRec 8 o ∧ p.transformList ≠ [] ∧ p.transformList.length ≤ 255 := by
  unfold Proposal.marshal at h
  by_cases h1 : p.spi.length > 255
  · rw [if_pos h1] at h
    exact absurd h (fail_ne_ok _ _)
  by_cases h2 : p.transformList.length = 0
  · rw [if_neg h1, if_pos h2] at h
    exact absurd h (fail_ne_ok _ _)
  by_cases h3 : p.transformList.length > 0xFF
  · rw [if_neg h1, if_neg h2, if_pos h3] at h
    exact absurd h (fail_ne_ok _ _)
  rw [if_neg h1, if_neg h2, if_neg h3] at h
  obtain ⟨d, hd, h⟩ := Outcome.bind_eq_ok.mp h
  dsimp only at h
  by_cases h4 : 8 + p.spi.length + d.length > 0xFFFF
  · rw [if_pos h4] at h
    exact absurd h (fail_ne_ok _ _)
  rw [if_neg h4] at h
  injection h with h
  obtain ⟨l1, l2, hl, hln⟩ := exists_octets_putUint16 (UInt16.ofNat (8 + p.spi.length + d.length))
  rw [UInt16.toNat_ofNat_of_lt' (show _ < 65536 by omega)] at hln
  have ho : o = (if last then 0 else 2) :: 0 :: l1 :: l2 :: p.proposalNumber :: p.protocolID ::
      UInt8.ofNat p.spi.length :: UInt8.ofNat p.transformList.length :: (p.spi ++ d) := by
    rw [← h, hl]
    simp
  refine ⟨d, l1, l2, hd, ho, ⟨?_, ?_⟩, fun hn => h2 (by rw [hn]; rfl), by omega⟩
  · rw [ho]
    simp
  · rw [ho]
    show octNat [l1, l2] = _
    simp [octNat, hln]
    omega

theorem readProposal_marshal {p : Proposal} (hspi : p.spi.length < 248)
    (hc : ∀ t ∈ p.transformList, t.Canonical) {last : Bool} {o : Bytes}
    (h : p.marshal last = .ok o) :
    ∃ as, ReadProposal ⟨o, as⟩ (p.transformList.map Transform.received) ∧
      RawProposal.proposal ⟨o, as⟩ (p.transformList.map Transform.received) = p.received := by
  obtain ⟨d, l1, l2, hd, ho, hrec, _, _⟩ := Proposal.marshal_eq_ok h
  obtain ⟨as, has, hread⟩ := readTransforms_marshal hc hd
  have hsize : (RawProposal.mk o as).spiSize = p.spi.length := by
    rw [RawProposal.spiSize, ho]
    exact UInt8.toNat_ofNat_of_lt' (show p.spi.length < 256 by omega)
  refine ⟨as, ⟨hrec, ?_, ?_, ?_, hread⟩, ?_⟩
  · rw [hsize]; exact hspi
  · rw [hsize, ho]
    simp
    omega
  · rw [hsize, ho, Nat.add_comm]
    simp [has]
  · have htake : ((RawProposal.mk o as).octets.drop 8).take p.spi.length = p.spi := by
      rw [ho]
      simp
    rw [RawProposal.proposal, hsize, htake, ho]
    rfl

/-- **An encoded security association at the other end.** -/
theorem SecurityAssociation.unmarshal_received {sa : SecurityAssociation} {d : Bytes}
    (hspi : ∀ p ∈ sa.proposals, p.spi.length < 248)
    (hc : ∀ p ∈ sa.proposals, ∀ t ∈ p.transformList, t.Canonical) (h : sa.marshal = .ok d)
    (sp : Bytes) :
    SecurityAssociation.unmarshal ⟨[]⟩ ⟨d, sp⟩ = .ok ⟨sa.proposals.map Proposal.received⟩ := by
  obtain ⟨os, hd, hos⟩ := emitLast_pieces
    (fun p hp last o ho => readProposal_marshal (hspi p hp) (hc p hp) ho) h
  have key : ∃ rs, os = rs.map RawProposal.octets ∧
      List.Forall₂ ReadProposal rs
        (sa.proposals.map fun p => p.transformList.map Transform.received) ∧
      List.zipWith RawProposal.proposal rs
        (sa.proposals.map fun p => p.transformList.map Transform.received) =
          sa.proposals.map Proposal.received := by
    generalize sa.proposals = ps at hos
    clear hd
    induction hos with
    | nil => exact ⟨[], rfl, .nil, rfl⟩
    | @cons p o ps os hp _ ih =>
      obtain ⟨as, hr, he⟩ := hp
      obtain ⟨rs, h1, h2, h3⟩ := ih
      refine ⟨⟨o, as⟩ :: rs, by rw [h1]; rfl, .cons hr h2, ?_⟩
      rw [List.map_cons, List.map_cons, List.zipWith_cons_cons, he, h3]
  obtain ⟨rs, h1, h2, h3⟩ := key
  refine SecurityAssociation.unmarshal_iff.mpr ⟨rs, _, ?_, h2, h3.symm⟩
  rw [hd, h1, List.flatMap_def]

/-! ## regular proposals -/

/-- proposals that the encoder takes and the decoder gives back -/
structure Proposal.Regular (p : Proposal) : Prop where
  spi : p.spi.length < 248
  nonempty : p.transformList ≠ []
  few : p.transformList.length ≤ 255
  plain : ∀ t ∈ p.transformList, t.Plain
  grouped : p.Grouped

/-- the octets a transform takes when it is encoded -/
def Transform.size (t : Transform) : Nat := if t.attributePresent then 12 else 8

def Proposal.size (p : Proposal) : Nat :=
  8 + p.spi.length + (p.transformList.map Transform.size).sum

def Proposal.octets (last : Bool) (p : Proposal) : Bytes :=
  (if last then 0 else 2) :: 0 :: (putUint16 (UInt16.ofNat p.size)
    ++ [p.proposalNumber, p.protocolID, UInt8.ofNat p.spi.length,
        UInt8.ofNat p.transformList.length] ++ p.spi
    ++ (markLast Transform.octets p.transformList).flatten)

theorem length_markLast {α : Type} (g : Bool → α → Bytes) (n : α → Nat)
    (h : ∀ last a, (g last a).length = n a) (l : List α) :
    (markLast g l).flatten.length = (l.map n).sum := by
  induction l with
  | nil => rfl
  | cons a l ih =>
    rw [markLast, List.flatten_cons, List.length_append, ih, h, List.map_cons, List.sum_cons]

theorem length_octets_proposal (last : Bool) (p : Proposal) :
    (p.octets last).length = p.size := by
  simp only [Proposal.octets, Proposal.size, List.length_cons, List.length_append,
    length_putUint16, List.length_nil,
    length_markLast Transform.octets Transform.size length_octets_transform]
  omega

theorem Proposal.Regular.size_lt {p : Proposal} (h : p.Regular) : p.size < 4000 := by
  have h1 := h.spi
  have h2 := h.few
  have h3 : (p.transformList.map Transform.size).sum ≤ p.transformList.length * 12 := by
    have hs := List.sum_le_card_nsmul (p.transformList.map Transform.size) 12 fun n hn => by
      obtain ⟨t, _, rfl⟩ := List.mem_map.mp hn
      unfold Transform.size
      split <;> omega
    rwa [List.length_map, nsmul_eq_mul, Nat.cast_id] at hs
  unfold Proposal.size
  omega

theorem Proposal.marshal_regular {p : Proposal} (h : p.Regular) (last : Bool) :
    p.marshal last = .ok (p.octets last) := by
  have h1 := h.spi
  have h2 := h.few
  have h3 : 0 < p.transformList.length := List.length_pos_iff.mpr h.nonempty
  have h4 := h.size_lt
  have hl : 8 + p.spi.length + (markLast Transform.octets p.transformList).flatten.length =
      p.size := by
    rw [length_markLast Transform.octets Transform.size length_octets_transform]
    rfl
  unfold Proposal.marshal
  rw [if_neg (by omega), if_neg (by omega), if_neg (by omega),
    emitLast_ok fun t ht last => Transform.marshal_plain (h.plain t ht) last]
  simp only [Outcome.ok_bind, hl]
  rw [if_neg (by omega)]
  rfl

theorem Proposal.Regular.received {p : Proposal} (h : p.Regular) : p.received = p := by
  have hmap : p.transformList.map Transform.received = p.transformList := by
    rw [List.map_congr_left fun t ht => (h.plain t ht).received, List.map_id']
  rw [Proposal.received, hmap, foldl_add_transformList h.grouped]

theorem SecurityAssociation.marshal_regular {sa : SecurityAssociation}
    (h : ∀ p ∈ sa.proposals, p.Regular) :
    sa.marshal = .ok (markLast Proposal.octets sa.proposals).flatten :=
  emitLast_ok fun p hp last => Proposal.marshal_regular (h p hp) last

/-- **Regular security associations survive the codec.** -/
theorem SecurityAssociation.unmarshal_marshal {sa : SecurityAssociation}
    (h : ∀ p ∈ sa.proposals, p.Regular) (sp : Bytes) :
    SecurityAssociation.unmarshal ⟨[]⟩ ⟨(markLast Proposal.octets sa.proposals).flatten, sp⟩ =
      .ok sa := by
  have hmap : sa.proposals.map Proposal.received = sa.proposals := by
    rw [List.map_congr_left fun p hp => (h p hp).received, List.map_id']
  have hr := SecurityAssociation.unmarshal_received (fun p hp => (h p hp).spi)
    (fun p hp t ht => ((h p hp).plain t ht).canonical) (SecurityAssociation.marshal_regular h) sp
  rwa [hmap] at hr

/-- **The codec of security associations without attributes of variable length.** -/
theorem SecurityAssociation.regular_roundTrip {sa : SecurityAssociation}
    (h : ∀ p ∈ sa.proposals, p.Regular) :
    ∃ d, sa.marshal = .ok d ∧ ∀ sp, SecurityAssociation.unmarshal ⟨[]⟩ ⟨d, sp⟩ = .ok sa :=
  ⟨_, SecurityAssociation.marshal_regular h, fun sp =>
    SecurityAssociation.unmarshal_marshal h sp⟩

/-- AES with a key of 256 bits, and a PRF -/
theorem SecurityAssociation.regular_roundTrip_aes :
    ∃ d, SecurityAssociation.marshal ⟨[⟨1, 1, [1, 2, 3, 4, 5, 6, 7, 8],
        [⟨1, 12, true, 1, 14, 256, []⟩], [⟨2, 5, false, 0, 0, 0, []⟩], [], [], []⟩]⟩ = .ok d ∧
      ∀ sp, SecurityAssociation.unmarshal ⟨[]⟩ ⟨d, sp⟩ = .ok ⟨[⟨1, 1, [1, 2, 3, 4, 5, 6, 7, 8],
        [⟨1, 12, true, 1, 14, 256, []⟩], [⟨2, 5, false, 0, 0, 0, []⟩], [], [], []⟩]⟩ := by
  apply SecurityAssociation.regular_roundTrip
  intro p hp
  obtain rfl := List.mem_singleton.mp hp
  refine ⟨by decide, by decide, by decide, ?_, ⟨?_, ?_, ?_, ?_, ?_⟩⟩
  · intro t ht
    have ht' : t ∈ [(⟨1, 12, true, 1, 14, 256, []⟩ : Transform), ⟨2, 5, false, 0, 0, 0, []⟩] := ht
    rcases List.mem_cons.mp ht' with rfl | ht'
    · exact ⟨rfl, by decide, fun _ => rfl, fun h => absurd h (by decide)⟩
    · obtain rfl := List.mem_singleton.mp ht'
      exact ⟨rfl, by decide, fun h => absurd h (by decide), fun _ => ⟨rfl, rfl, rfl⟩⟩
  all_goals decide

/-- what the encoder refuses: a proposal without transforms or with more than 255 of them, and a
variable length attribute without a value -/
theorem SecurityAssociation.marshal_ok_only {sa : SecurityAssociation} {d : Bytes}
    (h : sa.marshal = .ok d) {p : Proposal} (hp : p ∈ sa.proposals) :
    p.transformList ≠ [] ∧ p.transformList.length ≤ 255 ∧
      ∀ t ∈ p.transformList, t.attributePresent = true → t.attributeFormat = 0 →
        t.variableLengthAttributeValue ≠ [] := by
  obtain ⟨last, x, hx⟩ := emitLast_mem h hp
  obtain ⟨td, _, _, htd, _, _, hne, h255⟩ := Proposal.marshal_eq_ok hx
  refine ⟨hne, h255, ?_⟩
  intro t ht hpres hform hnil
  obtain ⟨last', y, hy⟩ := emitLast_mem htd ht
  obtain ⟨z, hz, _⟩ := Outcome.bind_eq_ok.mp hy
  rw [Transform.attributeData, if_pos hpres, if_pos hform, if_pos (by rw [hnil]; rfl)] at hz
  exact absurd hz (fail_ne_ok _ _)

end Ike

import IKEv2.Message.Kept

/-!
# Which security associations come back

A proposal is written with the transforms the decoder kept of it: those of a known type, each in 8
octets or, with an attribute, in 12.  The encoder refuses a proposal of which none or more than 255
were kept, and an attribute of variable length, whose value the decoder has dropped.

* `RawProposal.Kept`                  what has to hold of the octets of a proposal;
* `proposalOf_regular`                then the encoder takes what was kept of it;
* `SecurityAssociation.returns_iff`   the payload comes back iff it holds of all its proposals.
-/

set_option linter.unusedVariables false

namespace Ike
open GoLang

/-! ## what is written of a proposal -/

/-- the octets a kept transform takes when it is written -/
def transformSize (a : Bytes) : Nat := if 8 < a.length then 12 else 8

/-- the octets the proposal takes when it is written -/
def RawProposal.size (r : RawProposal) : Nat := 8 + r.spiSize + (r.known.map transformSize).sum

/-- between 1 and 255 transforms of a known type, none with an attribute of variable length -/
structure RawProposal.Kept (r : RawProposal) : Prop where
  nonempty : r.known ≠ []
  few : r.known.length ≤ 255
  fixed : ∀ a ∈ r.known, 8 < a.length → 128 ≤ (a.getD 8 0).toNat

/-- the octets are proposals that are written again, as `n` octets -/
def ProposalsKept (body : Bytes) (n : Nat) : Prop :=
  ∃ rs : List RawProposal, body = rs.flatMap RawProposal.octets ∧ (∀ r ∈ rs, r.Wellformed) ∧
    (∀ r ∈ rs, r.Kept) ∧ n = (rs.map RawProposal.size).sum

theorem TransformOf.size {a : Bytes} {t : Transform} (h : TransformOf a t) :
    transformSize a = t.size := by
  rw [transformSize, Transform.size, h.present]
  simp

theorem TransformOf.plain {a : Bytes} {t : Transform} (h : TransformOf a t)
    (hf : 8 < a.length → 128 ≤ (a.getD 8 0).toNat) : t.Plain := by
  refine ⟨h.noValue, h.attrType, ?_, h.absent⟩
  intro hp
  have h8 : 8 < a.length := by
    rw [h.present] at hp
    exact of_decide_eq_true hp
  have hbit := hf h8
  rw [h.format hp, topBit_eq, if_neg (by omega)]

theorem ProposalOf.length_known {r : RawProposal} {p : Proposal} (h : ProposalOf r p) :
    r.known.length = p.transformList.length := by
  obtain ⟨ts, hts, hperm⟩ := h.kept
  rw [hts.length_eq, hperm.length_eq]

theorem ProposalOf.size {r : RawProposal} {p : Proposal} (h : ProposalOf r p) :
    r.size = p.size := by
  obtain ⟨ts, hts, hperm⟩ := h.kept
  rw [RawProposal.size, Proposal.size, h.spi, forall₂_map_eq hts fun a t ht => ht.size,
    (hperm.map Transform.size).sum_eq]

theorem proposalOf_regular {r : RawProposal} {p : Proposal} (h : ProposalOf r p) (hk : r.Kept) :
    p.Regular := by
  have hlen := h.length_known
  have hpos : 0 < r.known.length := List.length_pos_iff.mpr hk.nonempty
  have hfew := hk.few
  refine ⟨by rw [h.spi]; exact h.small, List.length_pos_iff.mp (by omega), by omega, ?_, h.grouped⟩
  intro t ht
  obtain ⟨ts, hts, hperm⟩ := h.kept
  obtain ⟨a, ha, hat⟩ := forall₂_partner hts (hperm.mem_iff.mp ht)
  exact hat.plain (hk.fixed a ha)

/-- what the encoder asks of a proposal that was read is what has to hold of its octets -/
theorem proposalOf_kept {r : RawProposal} {p : Proposal} (h : ProposalOf r p)
    (h0 : p.transformList ≠ []) (h255 : p.transformList.length ≤ 255)
    (hval : ∀ t ∈ p.transformList, t.attributePresent = true → t.attributeFormat = 0 →
      t.variableLengthAttributeValue ≠ []) : r.Kept := by
  have hlen := h.length_known
  have hpos : 0 < p.transformList.length := List.length_pos_iff.mpr h0
  refine ⟨List.length_pos_iff.mp (by omega), by omega, ?_⟩
  intro a ha h8
  obtain ⟨ts, hts, hperm⟩ := h.kept
  obtain ⟨t, ht, hat⟩ := forall₂_partner (R := flip TransformOf) (List.Forall₂.flip hts) ha
  have hat' : TransformOf a t := hat
  by_contra hlow
  have hp : t.attributePresent = true := by
    rw [hat'.present]
    exact decide_eq_true h8
  have hf : t.attributeFormat = 0 := by rw [hat'.format hp, topBit_eq, if_pos (by omega)]
  exact hval t (hperm.mem_iff.mpr ht) hp hf hat'.noValue

/-! ## the payload -/

theorem RawProposal.ext_octets {r r' : RawProposal} (h : r.Wellformed) (h' : r'.Wellformed)
    (he : r.octets = r'.octets) : r = r' := by
  obtain ⟨o, ts⟩ := r
  obtain ⟨o', ts'⟩ := r'
  obtain rfl : o = o' := he
  have hs : ts.flatten = ts'.flatten := h.split.symm.trans h'.split
  obtain rfl : ts = ts' := lenRecs_unique (h := 8) (by omega) h.lenRecs h'.lenRecs hs
  rfl

/-- octets split into proposals in at most one way -/
theorem rawProposals_unique {rs rs' : List RawProposal} (h : ∀ r ∈ rs, r.Wellformed)
    (h' : ∀ r ∈ rs', r.Wellformed)
    (he : rs.flatMap RawProposal.octets = rs'.flatMap RawProposal.octets) : rs = rs' := by
  have hrec : ∀ {l : List RawProposal}, (∀ r ∈ l, r.Wellformed) →
      ∀ a ∈ l.map RawProposal.octets, LenRec 8 a := by
    intro l hl a ha
    obtain ⟨r, hr, rfl⟩ := List.mem_map.mp ha
    exact (hl r hr).lenRec
  have hmap : rs.map RawProposal.octets = rs'.map RawProposal.octets :=
    lenRecs_unique (by omega) (hrec h) (hrec h') he
  clear he
  induction rs generalizing rs' with
  | nil => exact (List.map_eq_nil_iff.mp hmap.symm).symm
  | cons r rs ih =>
    cases rs' with
    | nil => exact absurd hmap (by simp)
    | cons r' rs' =>
      simp only [List.map_cons, List.cons.injEq] at hmap
      rw [RawProposal.ext_octets (h r (List.mem_cons_self ..)) (h' r' (List.mem_cons_self ..)) hmap.1,
        ih (fun x hx => h x (List.mem_cons_of_mem _ hx))
          (fun x hx => h' x (List.mem_cons_of_mem _ hx)) hmap.2]

theorem SecurityAssociation.returns_iff {body sp : Bytes} {sa : SecurityAssociation}
    (h : SecurityAssociation.unmarshal ⟨[]⟩ ⟨body, sp⟩ = .ok sa) (n : Nat) :
    Returns SecurityAssociation.marshal (SecurityAssociation.unmarshal ⟨[]⟩) sa n ↔
      ProposalsKept body n := by
  obtain ⟨rs, ps, hbody, hof, hps⟩ := SecurityAssociation.unmarshal_raw h
  obtain rfl : sa.proposals = ps := hps
  have hwf : ∀ r ∈ rs, r.Wellformed := by
    intro r hr
    obtain ⟨p, _, hp⟩ := forall₂_partner (R := flip ProposalOf) (List.Forall₂.flip hof) hr
    exact ProposalOf.wf hp
  have hsize : (markLast Proposal.octets sa.proposals).flatten.length =
      (rs.map RawProposal.size).sum := by
    rw [length_markLast Proposal.octets Proposal.size length_octets_proposal,
      forall₂_map_eq hof fun r p hp => hp.size]
  have hregular : (∀ r ∈ rs, r.Kept) → ∀ p ∈ sa.proposals, p.Regular := by
    intro hk p hp
    obtain ⟨r, hr, hrp⟩ := forall₂_partner hof hp
    exact proposalOf_regular hrp (hk r hr)
  constructor
  · intro hret
    obtain ⟨data, _, hm, hlen, _⟩ := hret
    have hk : ∀ r ∈ rs, r.Kept := by
      intro r hr
      obtain ⟨p, hp, hrp⟩ := forall₂_partner (R := flip ProposalOf) (List.Forall₂.flip hof) hr
      obtain ⟨h0, h255, hval⟩ := SecurityAssociation.marshal_ok_only hm hp
      exact proposalOf_kept hrp h0 h255 hval
    rw [SecurityAssociation.marshal_regular (hregular hk)] at hm
    injection hm with hm
    exact ⟨rs, hbody, hwf, hk, by rw [← hsize, hm, hlen]⟩
  · intro hkept
    obtain ⟨rs', hbody', hwf', hk, hn⟩ := hkept
    obtain rfl : rs' = rs := rawProposals_unique hwf' hwf (hbody'.symm.trans hbody)
    exact ⟨_, [], SecurityAssociation.marshal_regular (hregular hk), by rw [hn, hsize],
      SecurityAssociation.unmarshal_marshal (hregular hk) []⟩

end Ike

import IKEv2.Eap.Attributes
import IKEv2.Message.Header
import IKEv2.Message.Overrun

/-!
# Octets that stop the decoder

A decoder that cuts a slice out of range stops the program.  Of the sixteen payload types four can do
so: SA and N, where a sum of octets wraps around, CP, where a sum of lengths does, and D, where the
last SPI is not complete and the buffer ends.  All other decoders return on all octets, and so does
the code around them.

* `EAP.unmarshal_returns`               the EAP decoders return;
* `IKEPayload.unmarshal_crash_iff`      a payload;
* `IKEPayloadContainer.decode_returns_iff`   a chain of payloads;
* `IKEMessage.decode_returns_iff`       a message.
-/

set_option linter.unusedVariables false

namespace Ike
open GoLang

/-! ## EAP -/

theorem readReserved_returns (t : UInt8) (r : Bytes) : (readReserved t r).returns := by
  unfold readReserved
  split <;> trivial

theorem readValue_returns (t : UInt8) (n : Nat) (r : Bytes) : (readValue t n r).returns := by
  unfold readValue
  split <;> trivial

theorem readPadding_returns (t : UInt8) (n : Nat) (r : Bytes) : (readPadding t n r).returns := by
  unfold readPadding
  split
  · split <;> trivial
  · trivial

theorem uint16_readReserved {t : UInt8} {r field rest : Bytes}
    (h : readReserved t r = .ok (field, rest)) : uint16 field = .ok (UInt16.ofNat (octNat field)) :=
  uint16_field (readReserved_iff.mp h).1

theorem readPadded_returns (actual : UInt16 → UInt16) (t length : UInt8) (r : Bytes) :
    (readPadded actual t length r).returns := by
  unfold readPadded
  refine Outcome.returns_bind.mpr ⟨readReserved_returns t r, fun (field, rest) hx => ?_⟩
  dsimp only
  rw [uint16_readReserved hx, Outcome.ok_bind]
  refine Outcome.returns_bind.mpr ⟨readValue_returns .., fun y _ => ?_⟩
  exact Outcome.returns_bind.mpr ⟨readPadding_returns .., fun _ _ => trivial⟩

theorem readBody_returns (t length : UInt8) (r : Bytes) : (readBody t length r).returns := by
  unfold readBody
  split
  · split
    · trivial
    refine Outcome.returns_bind.mpr ⟨readReserved_returns t r, fun x _ => ?_⟩
    dsimp only
    split
    · trivial
    · exact Outcome.returns_bind.mpr ⟨readValue_returns .., fun _ _ => trivial⟩
  · exact readPadded_returns ..
  · exact readPadded_returns ..
  · refine Outcome.returns_bind.mpr ⟨readReserved_returns t r, fun (field, rest) hx => ?_⟩
    dsimp only
    rw [uint16_readReserved hx]
    trivial
  · refine Outcome.returns_bind.mpr ⟨readReserved_returns t r, fun x _ => ?_⟩
    exact Outcome.returns_bind.mpr ⟨readValue_returns .., fun _ _ => trivial⟩
  · split
    · trivial
    · exact Outcome.returns_bind.mpr ⟨readValue_returns .., fun _ _ => trivial⟩
  · trivial

theorem readAttr_returns (r : Bytes) : (readAttr r).returns := by
  unfold readAttr
  split
  · exact Outcome.returns_map.mpr (readBody_returns ..)
  · trivial

/-- every round takes two octets at least, so the loop ends -/
theorem attrLoop_returns {n : Nat} {r : Bytes} (hn : r.length < n) (e : EapAkaPrime) :
    (EapAkaPrime.attrLoop n r e).1.returns := by
  induction n generalizing r e with
  | zero => exact absurd hn (by omega)
  | succ n ih =>
    rw [attrLoop_succ]
    have hr := readAttr_returns r
    cases hread : readAttr r with
    | ok next =>
      cases next with
      | none => trivial
      | some x =>
        obtain ⟨w, _, rfl, _⟩ := readAttr_iff.mp (show readAttr r = .ok (some (x.1, x.2)) from hread)
        refine ih ?_ (e.store x.1)
        simp only [WireAttr.octets, List.length_append, List.length_cons] at hn
        omega
    | err err => trivial
    | panic p =>
      rw [hread] at hr
      exact hr

theorem EapAkaPrime.unmarshal_returns (d : Bytes) (e : EapAkaPrime) :
    (EapAkaPrime.unmarshal d e).1.returns := by
  rcases EapAkaPrime.unmarshal_cases d with ⟨t, hfail⟩ | ⟨sub, r1, r2, rest, rfl⟩
  · rw [hfail]
    trivial
  · rw [EapAkaPrime.unmarshal_cons]
    exact attrLoop_returns (Nat.lt_succ_self _) _

theorem typedUnmarshal_returns (name : String) (type : UInt8) (old : Bytes) (b : Slice UInt8) :
    (typedUnmarshal name type old b).returns := by
  unfold typedUnmarshal
  split
  · next hlen =>
    refine Outcome.returns_bind.mpr ⟨Slice.index_returns (by omega), fun typeCode _ => ?_⟩
    split
    · trivial
    · exact Outcome.returns_bind.mpr ⟨Slice.sliceFrom_returns (by omega), fun _ _ => trivial⟩
  · trivial

theorem EapMD5.unmarshal_returns (b : Slice UInt8) : (EapMD5.unmarshal b).returns := by
  unfold EapMD5.unmarshal
  split
  · trivial
  refine Outcome.returns_bind.mpr ⟨Slice.index_returns (by omega), fun actualType _ => ?_⟩
  split
  · trivial
  refine Outcome.returns_bind.mpr ⟨Slice.index_returns (by omega), fun valueSize _ => ?_⟩
  split
  · trivial
  split
  · trivial
  next hsize hlen =>
  have hlen : 18 ≤ b.len := by
    rw [not_not.mp hsize] at hlen
    exact Nat.le_of_not_lt hlen
  refine Outcome.returns_bind.mpr ⟨Slice.slice_returns (by decide) hlen, fun value _ => ?_⟩
  refine Outcome.returns_bind.mpr ⟨?_, fun _ _ => trivial⟩
  split
  · exact Outcome.returns_map.mpr (Slice.sliceFrom_returns hlen)
  · trivial

theorem EapExpanded.unmarshal_returns (e : EapExpanded) (b : Slice UInt8) :
    (e.unmarshal b).returns := by
  unfold EapExpanded.unmarshal
  split
  · split
    · trivial
    next hlen =>
    obtain ⟨v, hv, hvl⟩ := b.exists_slice (show 0 ≤ 4 by omega) (show 4 ≤ b.len by omega)
    obtain ⟨t, ht, htl⟩ := b.exists_slice (show 4 ≤ 8 by omega) (show 8 ≤ b.len by omega)
    rw [hv, Outcome.ok_bind, uint32_take (by omega), Outcome.ok_bind, ht, Outcome.ok_bind,
      uint32_take (by omega), Outcome.ok_bind]
    refine Outcome.returns_bind.mpr ⟨?_, fun _ _ => trivial⟩
    split
    · exact Outcome.returns_map.mpr (Slice.sliceFrom_returns (by omega))
    · trivial
  · trivial

theorem EapTypeData.unmarshal_returns (t : UInt8) (b : Slice UInt8) :
    (EapTypeData.unmarshal t b).returns := by
  unfold EapTypeData.unmarshal
  split
  · exact Outcome.returns_map.mpr (Outcome.returns_map.mpr (typedUnmarshal_returns ..))
  split
  · exact Outcome.returns_map.mpr (Outcome.returns_map.mpr (typedUnmarshal_returns ..))
  split
  · exact Outcome.returns_map.mpr (Outcome.returns_map.mpr (typedUnmarshal_returns ..))
  split
  · exact Outcome.returns_map.mpr (EapMD5.unmarshal_returns b)
  split
  · exact Outcome.returns_map.mpr (EapAkaPrime.unmarshal_returns b.data EapAkaPrime.zero)
  · exact Outcome.returns_map.mpr (EapExpanded.unmarshal_returns _ b)

/-- **The EAP decoders return** on all octets. -/
theorem EAP.unmarshal_returns (e : EAP) (b : Slice UInt8) : (e.unmarshal b).returns := by
  unfold EAP.unmarshal
  split
  · split
    · trivial
    next hlen =>
    obtain ⟨l, hl, hll⟩ := b.exists_slice (show 2 ≤ 4 by omega) (show 4 ≤ b.len by omega)
    rw [hl, Outcome.ok_bind, uint16_field (by omega), Outcome.ok_bind]
    split
    · trivial
    split
    · trivial
    next hlow hsame =>
    refine Outcome.returns_bind.mpr ⟨Slice.index_returns (by omega), fun code _ => ?_⟩
    refine Outcome.returns_bind.mpr ⟨Slice.index_returns (by omega), fun identifier _ => ?_⟩
    split
    · trivial
    split
    · trivial
    next hreq hfour =>
    -- the length is neither less than four nor four
    have hlen5 : 5 ≤ b.len := by
      by_contra h5
      refine hfour (UInt16.toNat_inj.mp ?_)
      have h4 : (4 : UInt16).toNat = 4 := rfl
      omega
    refine Outcome.returns_bind.mpr ⟨Slice.index_returns (by omega), fun eapType _ => ?_⟩
    split
    · trivial
    refine Outcome.returns_bind.mpr ⟨Slice.sliceFrom_returns (by omega), fun r _ => ?_⟩
    refine Outcome.returns_bind.mpr ⟨?_, fun _ _ => trivial⟩
    exact Outcome.returns_wrapf.mpr (EapTypeData.unmarshal_returns ..)
  · trivial

/-! ## the other payloads that return -/

theorem taggedUnmarshal_returns (n : Nat) (t : String) (old : UInt8 × Bytes) (b : Slice UInt8) :
    (taggedUnmarshal n t old b).returns := by
  obtain ⟨d, sp⟩ := b
  cases d with
  | nil => trivial
  | cons tag l =>
    rw [taggedUnmarshal_cons]
    split <;> trivial

theorem KeyExchange.unmarshal_returns (k : KeyExchange) (b : Slice UInt8) :
    (k.unmarshal b).returns := by
  rw [show b = ⟨b.data, b.spare⟩ from rfl, KeyExchange.unmarshal_eq]
  split
  · trivial
  split <;> trivial

/-! ## those that do not -/

theorem SecurityAssociation.unmarshal_overruns (sa : SecurityAssociation) (b sp : Bytes) :
    (sa.unmarshal ⟨b, sp⟩).returns ↔ ¬ Overruns b := by
  have hmap : sa.unmarshal ⟨b, sp⟩ = (fun s => ⟨s.2⟩) <$>
      peelLoop proposalRound (⟨b, sp⟩, sa.proposals) := by
    rw [SecurityAssociation.unmarshal, map_eq_pure_bind]
  rw [hmap, Outcome.returns_map]
  refine lenLoop_returns_iff (by omega) _ _ _ (fun ps a r sp ha => ?_) (fun ps a r sp ha => ?_) b sp
    sa.proposals
  · rw [Outcome.exists_map_eq_ok]
    exact readProposal_good ha r sp
  · rw [Outcome.returns_map]
    exact readProposal_returns ha r sp

/-- the sum `4+spiSize` wraps around -/
def Notification.Wraps (b : Bytes) : Prop := 4 ≤ b.length ∧ 252 ≤ (b.getD 1 0).toNat

theorem Notification.unmarshal_crash_iff (p : Notification) (b sp : Bytes) :
    (p.unmarshal ⟨b, sp⟩).returns ↔ ¬ Notification.Wraps b := by
  rcases header_cases b with rfl | ⟨h0, h4⟩ | ⟨proto, size, m1, m2, l, rfl⟩
  · exact iff_of_true trivial fun h => absurd h.1 (by simp)
  · rw [p.unmarshal_short h0 h4]
    exact iff_of_true trivial fun h => absurd h.1 (by omega)
  · have hw : Notification.Wraps (proto :: size :: m1 :: m2 :: l) ↔ 252 ≤ size.toNat :=
      and_iff_right (by simp)
    rw [Notification.unmarshal_cons, hw]
    by_cases h : 252 ≤ size.toNat
    · rw [if_pos h]
      exact iff_of_false id (not_not_intro h)
    · rw [if_neg h]
      refine iff_of_true ?_ h
      split <;> trivial

/-- the last SPI is not complete, and the buffer ends inside it -/
def Delete.Short (b behind : Bytes) : Prop :=
  4 + (b.getD 1 0).toNat * spiCount b ≤ b.length ∧ b.length % 4 ≠ 0 ∧
    behind.length < 4 - b.length % 4

/-- the round at an index inside the payload -/
theorem spiRound_inside {l s : Bytes} {i : Nat} (h : i + 4 ≤ l.length) (acc : List UInt32) :
    ∃ v, Delete.spiRound ⟨l, s⟩ (i, acc) = .ok (i + 4, acc ++ [v]) := by
  have h4 : ((l.drop i).take 4).length = 4 := by
    rw [List.length_take, List.length_drop]
    omega
  refine ⟨UInt32.ofNat (octNat ((l.drop i).take 4)),
    spiRound_at ⟨l, s⟩ i (l.take i) (l.drop (i + 4) ++ s) _ ?_ ?_ acc⟩
  · rw [putUint32_ofOctets h4, ← List.drop_drop, ← List.append_assoc, List.append_assoc (l.take i),
      List.take_append_drop, List.take_append_drop]
  · rw [List.length_take]
    omega

/-- a started group of four octets that the buffer cannot fill -/
theorem spiLoop_short {l s : Bytes} (h4 : l.length % 4 ≠ 0) (hs : s.length < 4 - l.length % 4) (i : Nat)
    (hi : i % 4 = 0) (hlt : i < l.length) (acc : List UInt32) :
    ¬ (Delete.spiLoop ⟨l, s⟩ (i, acc)).returns := by
  induction hn : l.length - i using Nat.strong_induction_on generalizing i acc with
  | _ n ih =>
    rw [spiLoop_step _ _ _ hlt]
    by_cases hin : i + 4 ≤ l.length
    · obtain ⟨v, hv⟩ := spiRound_inside hin acc
      rw [hv, Outcome.ok_bind]
      exact ih (l.length - (i + 4)) (by omega) (i + 4) (by omega) (by omega) _ rfl
    · have hcap : ¬ (i ≤ i + 4 ∧ i + 4 ≤ (⟨l, s⟩ : Slice UInt8).cap) := by
        show ¬ (i ≤ i + 4 ∧ i + 4 ≤ l.length + s.length)
        omega
      rw [Delete.spiRound, Slice.slice, if_neg hcap]
      exact id

theorem Delete.unmarshal_crash_iff (p : Delete) (b sp : Bytes) :
    (p.unmarshal ⟨b, sp⟩).returns ↔ ¬ Delete.Short b sp := by
  rcases header_cases b with rfl | ⟨h0, hlt⟩ | ⟨proto, size, n1, n2, l, rfl⟩
  · exact iff_of_true trivial fun h => absurd h.2.1 (by simp)
  · rw [p.unmarshal_short b sp h0 (by omega)]
    exact iff_of_true trivial fun h => absurd h.1 (by omega)
  have hcount : spiCount (proto :: size :: n1 :: n2 :: l) = n1.toNat * 256 + n2.toNat := by
    show octNat [n1, n2] = _
    simp [octNat]
  have hshort : Delete.Short (proto :: size :: n1 :: n2 :: l) sp ↔
      ¬ l.length < size.toNat * (n1.toNat * 256 + n2.toNat) ∧ l.length % 4 ≠ 0 ∧
        sp.length < 4 - l.length % 4 := by
    rw [Delete.Short, hcount, show (proto :: size :: n1 :: n2 :: l).getD 1 0 = size from rfl]
    simp only [List.length_cons]
    omega
  rw [Delete.unmarshal_cons, hshort]
  by_cases hroom : l.length < size.toNat * (n1.toNat * 256 + n2.toNat)
  · rw [if_pos hroom]
    exact iff_of_true trivial fun h => h.1 hroom
  rw [if_neg hroom, Outcome.returns_map]
  by_cases hs : l.length % 4 ≠ 0 ∧ sp.length < 4 - l.length % 4
  · refine iff_of_false (spiLoop_short hs.1 hs.2 0 rfl ?_ p.spis) (not_not_intro ⟨hroom, hs⟩)
    omega
  · refine iff_of_true ?_ fun h => hs h.2
    obtain ⟨r, hr⟩ : ∃ r, r = (4 - l.length % 4) % 4 := ⟨_, rfl⟩
    obtain ⟨j, vs, _, hloop⟩ := spiLoop_behind (l := l) (s := sp) (r := r) (by omega) (by omega)
      (by omega) p.spis
    rw [hloop]
    trivial

theorem Configuration.unmarshal_crash_iff (c : Configuration) (b sp : Bytes) :
    (c.unmarshal ⟨b, sp⟩).returns ↔ ¬ AttrOverrun (b.drop 4) := by
  by_cases h : AttrOverrun (b.drop 4)
  · rw [c.unmarshal_overrun h]
    exact iff_of_false id (not_not_intro h)
  · exact iff_of_true ((c.within_of_not_overrun h).returns sp) h

/-! ## payloads -/

/-- the octets of a payload on which its decoder stops the program; `behind` is what lies behind
them in the buffer -/
def IkePayloadType.Crashes (body behind : Bytes) : IkePayloadType → Prop
  | .SA => Overruns body
  | .N => Notification.Wraps body
  | .D => Delete.Short body behind
  | .CP => AttrOverrun (body.drop 4)
  | _ => False

/-- **When the decoder of a payload returns.** -/
theorem IKEPayload.unmarshal_crash_iff (next : UInt8) (t : IkePayloadType) (body sp : Bytes) :
    ((IKEPayload.new next t).unmarshal ⟨body, sp⟩).returns ↔ ¬ t.Crashes body sp := by
  have hnever : ∀ {α : Type} {x : Outcome α}, x.returns → (x.returns ↔ ¬ False) :=
    fun hx => iff_of_true hx id
  cases t with
  | SA => exact Outcome.returns_map.trans (SecurityAssociation.unmarshal_overruns ..)
  | N => exact Outcome.returns_map.trans (Notification.unmarshal_crash_iff ..)
  | D => exact Outcome.returns_map.trans (Delete.unmarshal_crash_iff ..)
  | CP => exact Outcome.returns_map.trans (Configuration.unmarshal_crash_iff ..)
  | KE => exact Outcome.returns_map.trans (hnever (KeyExchange.unmarshal_returns ..))
  | EAP => exact Outcome.returns_map.trans (hnever (EAP.unmarshal_returns ..))
  | IDi => exact Outcome.returns_map.trans (hnever (Outcome.returns_map.mpr
      (taggedUnmarshal_returns ..)))
  | IDr => exact Outcome.returns_map.trans (hnever (Outcome.returns_map.mpr
      (taggedUnmarshal_returns ..)))
  | CERT => exact Outcome.returns_map.trans (hnever (Outcome.returns_map.mpr
      (taggedUnmarshal_returns ..)))
  | CERTreq => exact Outcome.returns_map.trans (hnever (Outcome.returns_map.mpr
      (taggedUnmarshal_returns ..)))
  | AUTH => exact Outcome.returns_map.trans (hnever (Outcome.returns_map.mpr
      (taggedUnmarshal_returns ..)))
  | TSi => exact Outcome.returns_map.trans (hnever (Outcome.returns_map.mpr
      ((tsUnmarshal_within [] body).returns sp)))
  | TSr => exact Outcome.returns_map.trans (hnever (Outcome.returns_map.mpr
      ((tsUnmarshal_within [] body).returns sp)))
  | NiNr =>
    refine Outcome.returns_map.trans (hnever ?_)
    rw [Nonce.unmarshal_eq]
    trivial
  | V =>
    refine Outcome.returns_map.trans (hnever ?_)
    rw [VendorID.unmarshal_eq]
    trivial
  | SK => exact Outcome.returns_map.trans (hnever trivial)

/-! ## chains of payloads -/

/-- records that are read, and behind them one on which its decoder stops the program -/
def ChainCrash (sp : Bytes) (n : UInt8) (d : Bytes) : Prop :=
  ∃ as ps n' t a r, d = as.flatten ++ (a ++ r) ∧ PayloadChain (a ++ r ++ sp) n as ps n' ∧
    IkePayloadType.ofCode n' = some t ∧ LenRec 4 a ∧ t.Crashes (recBody a) (r ++ sp)

theorem chainCrash_here {sp : Bytes} {n : UInt8} {t : IkePayloadType} {a r : Bytes} (ha : LenRec 4 a)
    (ht : IkePayloadType.ofCode n = some t) (hc : t.Crashes (recBody a) (r ++ sp)) :
    ChainCrash sp n (a ++ r) :=
  ⟨[], [], n, t, a, r, rfl, .nil n, ht, ha, hc⟩

theorem chainCrash_skip {sp : Bytes} {n : UInt8} {a r : Bytes} (ha : LenRec 4 a)
    (ht : IkePayloadType.ofCode n = none) (hc : recCritical a = false)
    (h : ChainCrash sp (recNext a) r) : ChainCrash sp n (a ++ r) := by
  obtain ⟨as, ps, n', t, b, s, rfl, hch, hn, hb, hcr⟩ := h
  exact ⟨a :: as, ps, n', t, b, s, by rw [List.flatten_cons, List.append_assoc],
    .skip ha ht hc hch, hn, hb, hcr⟩

theorem chainCrash_payload {sp : Bytes} {n : UInt8} {t : IkePayloadType} {a r : Bytes}
    {p : IKEPayload} (ha : LenRec 4 a) (ht : IkePayloadType.ofCode n = some t)
    (hp : (IKEPayload.new (recNext a) t).unmarshal ⟨recBody a, r ++ sp⟩ = .ok p)
    (h : ChainCrash sp (recNext a) r) : ChainCrash sp n (a ++ r) := by
  obtain ⟨as, ps, n', t', b, s, rfl, hch, hn, hb, hcr⟩ := h
  refine ⟨a :: as, p :: ps, n', t', b, s, by rw [List.flatten_cons, List.append_assoc],
    .payload ha ht ?_ hch, hn, hb, hcr⟩
  rw [← List.append_assoc]
  exact hp

theorem chainCrash_record {sp : Bytes} {n : UInt8} {a r : Bytes} (ha : LenRec 4 a)
    (h : ChainCrash sp n (a ++ r)) :
    (∃ t, IkePayloadType.ofCode n = some t ∧ t.Crashes (recBody a) (r ++ sp)) ∨
    (IkePayloadType.ofCode n = none ∧ recCritical a = false ∧ ChainCrash sp (recNext a) r) ∨
    ∃ t p, IkePayloadType.ofCode n = some t ∧
      (IKEPayload.new (recNext a) t).unmarshal ⟨recBody a, r ++ sp⟩ = .ok p ∧
      ChainCrash sp (recNext a) r := by
  obtain ⟨as, ps, n', t, b, s, hd, hch, hn, hb, hcr⟩ := h
  cases hch with
  | nil =>
    obtain ⟨rfl, rfl⟩ := lenRec_append_inj (by omega) ha hb hd
    exact .inl ⟨t, hn, hcr⟩
  | @skip _ _ c cs _ hc ht hcrit hrest =>
    rw [List.flatten_cons, List.append_assoc] at hd
    obtain ⟨rfl, rfl⟩ := lenRec_append_inj (by omega) ha hc hd
    exact .inr (.inl ⟨ht, hcrit, cs, ps, n', t, b, s, rfl, hrest, hn, hb, hcr⟩)
  | @payload _ _ t' c cs p ps' hc ht hp hrest =>
    rw [List.flatten_cons, List.append_assoc] at hd
    obtain ⟨rfl, rfl⟩ := lenRec_append_inj (by omega) ha hc hd
    refine .inr (.inr ⟨t', p, ht, ?_, cs, ps', n', t, b, s, rfl, hrest, hn, hb, hcr⟩)
    rw [List.append_assoc]
    exact hp

theorem not_chainCrash {sp : Bytes} {n : UInt8} {d : Bytes}
    (hd : ∀ a r, LenRec 4 a → d ≠ a ++ r) : ¬ ChainCrash sp n d := by
  rintro ⟨as, ps, n', t, b, s, rfl, hch, _, hb, _⟩
  cases hch with
  | nil => exact hd b s hb rfl
  | @skip _ _ c cs _ hc _ _ _ =>
    exact hd c _ hc (by rw [List.flatten_cons, List.append_assoc])
  | @payload _ _ _ c cs _ _ hc _ _ _ =>
    exact hd c _ hc (by rw [List.flatten_cons, List.append_assoc])

/-- **When the decoder of a chain returns.** -/
theorem IKEPayloadContainer.decode_returns_iff (acc : IKEPayloadContainer) (n : UInt8) (d sp : Bytes) :
    (decode acc n ⟨d, sp⟩).returns ↔ ¬ ChainCrash sp n d := by
  induction d using lenRec_induct (h := 4) (by omega) generalizing acc n with
  | nil =>
    rw [decode_nil]
    refine iff_of_true trivial (not_chainCrash fun a r ha he => ?_)
    exact lenRec_ne_nil (by omega) ha (List.append_eq_nil_iff.mp he.symm).1
  | stop d h0 hn =>
    obtain ⟨e, he⟩ := lenLoop_refuses (by omega) _ _ _ decodePayload h0 hn sp (n, acc)
    rw [decode, decodeRound, he]
    exact iff_of_true trivial (not_chainCrash hn)
  | record a r ha ih =>
    rw [decode_record ha]
    cases ht : IkePayloadType.ofCode n with
    | none =>
      cases hc : recCritical a with
      | true =>
        refine iff_of_true trivial fun h => ?_
        rcases chainCrash_record ha h with ⟨t, ht', _⟩ | ⟨_, hc', _⟩ | ⟨t, p, ht', _⟩
        · exact absurd (ht.symm.trans ht') (by simp)
        · exact absurd (hc.symm.trans hc') (by simp)
        · exact absurd (ht.symm.trans ht') (by simp)
      | false =>
        refine (ih acc (recNext a)).trans (not_congr ⟨chainCrash_skip ha ht hc, fun h => ?_⟩)
        rcases chainCrash_record ha h with ⟨t, ht', _⟩ | ⟨_, _, h⟩ | ⟨t, p, ht', _⟩
        · exact absurd (ht.symm.trans ht') (by simp)
        · exact h
        · exact absurd (ht.symm.trans ht') (by simp)
    | some t =>
      dsimp only
      rw [Outcome.returns_bind, Outcome.returns_wrapf, IKEPayload.unmarshal_crash_iff]
      constructor
      · intro hret h
        rcases chainCrash_record ha h with ⟨t', ht', hcr⟩ | ⟨ht', _⟩ | ⟨t', p, ht', hp, hrest⟩
        · obtain rfl := Option.some.inj (ht.symm.trans ht')
          exact hret.1 hcr
        · exact absurd (ht.symm.trans ht') (by simp)
        · obtain rfl := Option.some.inj (ht.symm.trans ht')
          exact (ih _ _).mp (hret.2 p (Outcome.wrapf_eq_ok.mpr hp)) hrest
      · intro h
        refine ⟨fun hcr => h (chainCrash_here ha ht hcr), fun p hp => ?_⟩
        exact (ih _ _).mpr fun hrest =>
          h (chainCrash_payload ha ht (Outcome.wrapf_eq_ok.mp hp) hrest)

/-! ## messages -/

/-- a header that is accepted, and behind it payloads on which the decoder stops the program -/
def MessageCrash (sp b : Bytes) : Prop :=
  28 ≤ b.length ∧ 28 ≤ headerLength b ∧ ChainCrash sp (headerOf b).nextPayload (b.drop 28)

theorem parseHeader_returns (b sp : Bytes) : (parseHeader ⟨b, sp⟩).returns := by
  by_cases hok : 28 ≤ b.length ∧ 28 ≤ headerLength b
  · rw [parseHeader_iff.mpr ⟨hok.1, hok.2, rfl⟩]
    trivial
  unfold parseHeader
  split
  · trivial
  next hlen =>
  have h28 : 28 ≤ b.length := Nat.le_of_not_lt hlen
  have hfour : ((b.take 28).drop 24).length = 4 := by
    rw [List.length_drop, List.length_take]
    omega
  have hlow : UInt32.ofNat (headerLength b) < UInt32.ofNat ikeHeaderLen := by
    rw [UInt32.lt_iff_toNat_lt, UInt32.toNat_ofNat_of_lt' (headerLength_lt b)]
    show headerLength b < 28
    omega
  have hnum : uint32 ((b.take ikeHeaderLen).drop 24) = .ok (UInt32.ofNat (headerLength b)) := by
    rw [show ikeHeaderLen = 28 from rfl, uint32_take (Nat.le_of_eq hfour.symm),
      List.take_of_length_le (Nat.le_of_eq hfour)]
    rfl
  rw [Slice.slice_data _ (by decide) (show ikeHeaderLen ≤ b.length from h28), Outcome.ok_bind]
  show (uint32 ((b.take ikeHeaderLen).drop 24) >>= fun totalLen =>
    if totalLen < UInt32.ofNat ikeHeaderLen then _ else _).returns
  rw [hnum, Outcome.ok_bind, if_pos hlow]
  trivial

theorem IKEMessage.decodePayload_returns_iff (m : IKEMessage) (d sp : Bytes) :
    (m.decodePayload ⟨d, sp⟩).returns ↔ ¬ ChainCrash sp m.header.nextPayload d := by
  unfold IKEMessage.decodePayload
  split
  · next hempty =>
    obtain rfl : d = [] := List.length_eq_zero_iff.mp hempty.2
    have hdec := (IKEPayloadContainer.decode_returns_iff [] m.header.nextPayload [] sp).mp
    exact iff_of_true trivial (hdec (by rw [IKEPayloadContainer.decode_nil]; trivial))
  · rw [Outcome.returns_bind, Outcome.returns_wrapf, IKEPayloadContainer.decode_returns_iff]
    exact and_iff_left fun _ _ => trivial

/-- **When the decoder of a message returns.** -/
theorem IKEMessage.decode_returns_iff (old : IKEPayloadContainer) (b sp : Bytes) :
    (IKEMessage.decode old ⟨b, sp⟩).returns ↔ ¬ MessageCrash sp b := by
  unfold IKEMessage.decode
  rw [Outcome.returns_bind, Outcome.returns_wrapf, and_iff_right (parseHeader_returns b sp)]
  simp only [Outcome.wrapf_eq_ok, parseHeader_iff]
  have hbody : 28 ≤ b.length → (((⟨b, sp⟩ : Slice UInt8).sliceFrom ikeHeaderLen >>= fun d =>
      (IKEMessage.decodePayload ⟨headerOf b, old⟩ d).wrapf "Decode(): DecodePayload failed").returns ↔
        ¬ ChainCrash sp (headerOf b).nextPayload (b.drop 28)) := by
    intro hlen
    rw [Slice.sliceFrom_data _ (show ikeHeaderLen ≤ b.length from hlen), Outcome.ok_bind,
      Outcome.returns_wrapf]
    exact IKEMessage.decodePayload_returns_iff ..
  constructor
  · intro h hc
    exact (hbody hc.1).mp (h _ ⟨hc.1, hc.2.1, rfl⟩) hc.2.2
  · rintro h _ ⟨hlen, hlow, rfl⟩
    exact (hbody hlen).mpr fun hc => h ⟨hlen, hlow, hc⟩

end Ike

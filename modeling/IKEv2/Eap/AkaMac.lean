import IKEv2.Eap.Packet
import IKEv2.Eap.Store

/-!
# The MAC of a received EAP-AKA' packet

`EAP.calcEapAkaPrimeAtMAC` computes the MAC over the packet that `Marshal` makes of the parsed
attributes, with AT_MAC set to zero, and not over the octets that came in.

* `calcMac_received`   the octets the MAC of a received packet is computed over;
* `calcMac_iff`        when these are the octets received, with the value of AT_MAC set to zero.
-/

set_option linter.unusedVariables false

namespace Ike
open GoLang

/-! ## AT_MAC set to zero -/

def macZero : EapAkaPrimeAttr :=
  { attrType := atMAC, length := 5, reserved := 0, value := List.replicate 16 0 }

theorem initMAC_eq (e : EapAkaPrime) :
    EapAkaPrime.initMAC e =
      (.ok (), EapAkaPrime.store { e with attributes := some fun t => e.lookup t } macZero) := rfl

theorem holds_initMAC {e : EapAkaPrime} {l : List EapAkaPrimeAttr} (h : e.Holds l) :
    (EapAkaPrime.initMAC e).2.Holds (put EapAkaPrimeAttr.attrType l macZero) := by
  rw [initMAC_eq]
  exact holds_store (e := { e with attributes := some fun t => e.lookup t })
    ⟨rfl, h.order, h.nodup, h.lookup⟩ macZero

/-- the octets from `o` on set to zero, 16 of them -/
def zeroAt (b : Bytes) (o : Nat) : Bytes := b.take o ++ List.replicate 16 0 ++ b.drop (o + 16)

theorem zeroAt_append (p v q : Bytes) (hv : v.length = 16) :
    zeroAt (p ++ v ++ q) p.length = p ++ List.replicate 16 0 ++ q := by
  have h1 : (p ++ v ++ q).take p.length = p := by
    rw [List.append_assoc, List.take_left]
  have h2 : (p ++ v ++ q).drop (p.length + 16) = q := by
    rw [← hv, ← List.length_append, List.drop_left]
  rw [zeroAt, h1, h2]

/-- the attribute with zeros for its value -/
def WireAttr.zeroed (w : WireAttr) : WireAttr := { w with value := List.replicate 16 0 }

theorem mac_shape {w : WireAttr} (hm : w.type = atMAC) (hw : w.Ok) :
    w.length = 5 ∧ w.field.length = 2 ∧ w.value.length = 16 ∧ w.padding = [] := by
  have hk : attrKind w.type = .value16 := by rw [hm]; rfl
  rw [WireAttr.Ok, hk] at hw
  exact hw

theorem attr_zeroed {w : WireAttr} (hm : w.type = atMAC) (hw : w.Ok) : w.zeroed.attr = macZero := by
  have hk : attrKind w.zeroed.type = .value16 := by rw [show w.zeroed.type = atMAC from hm]; rfl
  simp only [WireAttr.attr, hk]
  rw [show w.zeroed.type = atMAC from hm, show w.zeroed.length = 5 from (mac_shape hm hw).1]
  rfl

theorem ok_zeroed {w : WireAttr} (hm : w.type = atMAC) (hw : w.Ok) : w.zeroed.Ok := by
  obtain ⟨h1, h2, _, h4⟩ := mac_shape hm hw
  have hk : attrKind w.zeroed.type = .value16 := by rw [show w.zeroed.type = atMAC from hm]; rfl
  rw [WireAttr.Ok, hk]
  exact ⟨h1, h2, List.length_replicate, h4⟩

theorem zeroAt_octets (hdr : Bytes) (hhdr : hdr.length = 8) (pre post : List WireAttr) (tail : Bytes)
    {mac : WireAttr} (hw : mac.Ok) (hm : mac.type = atMAC) :
    zeroAt (hdr ++ ((pre ++ mac :: post).flatMap WireAttr.octets ++ tail))
        (8 + (pre.flatMap WireAttr.octets).length + 4) =
      hdr ++ ((pre ++ mac.zeroed :: post).flatMap WireAttr.octets ++ tail) := by
  obtain ⟨_, h2, h3, h4⟩ := mac_shape hm hw
  have hz := zeroAt_append (hdr ++ pre.flatMap WireAttr.octets ++ [mac.type, mac.length] ++ mac.field)
    mac.value (post.flatMap WireAttr.octets ++ tail) h3
  have ho : (hdr ++ pre.flatMap WireAttr.octets ++ [mac.type, mac.length] ++ mac.field).length =
      8 + (pre.flatMap WireAttr.octets).length + 4 := by
    simp only [List.length_append, List.length_cons, List.length_nil, hhdr, h2]
  rw [ho] at hz
  simpa [WireAttr.octets, WireAttr.zeroed, h4] using hz

/-- setting AT_MAC to zero in the list of what was received is the same as receiving zeros -/
theorem put_macZero {pre post : List WireAttr} {mac : WireAttr} (hw : mac.Ok)
    (hm : mac.type = atMAC) (hpre : ∀ w ∈ pre, w.type ≠ atMAC) (hpost : ∀ w ∈ post, w.type ≠ atMAC) :
    put EapAkaPrimeAttr.attrType
        (putAll EapAkaPrimeAttr.attrType [] ((pre ++ mac :: post).map WireAttr.attr)) macZero =
      putAll EapAkaPrimeAttr.attrType [] ((pre ++ mac.zeroed :: post).map WireAttr.attr) := by
  let f : EapAkaPrimeAttr → EapAkaPrimeAttr := fun a => if a.attrType = atMAC then macZero else a
  have hf : ∀ a, (f a).attrType = a.attrType := by
    intro a
    by_cases h : a.attrType = atMAC
    · simp only [f, if_pos h, h]; rfl
    · simp only [f, if_neg h]
  have hkeep : ∀ ws : List WireAttr, (∀ w ∈ ws, w.type ≠ atMAC) →
      (ws.map WireAttr.attr).map f = ws.map WireAttr.attr := by
    intro ws hws
    rw [List.map_map]
    exact List.map_congr_left fun w hm => if_neg (hws w hm)
  have hmac : f mac.attr = mac.zeroed.attr := by
    rw [attr_zeroed hm hw]
    exact if_pos hm
  have hmem : macZero.attrType ∈ (putAll EapAkaPrimeAttr.attrType []
      ((pre ++ mac :: post).map WireAttr.attr)).map EapAkaPrimeAttr.attrType := by
    rw [mem_map_putAll]
    refine Or.inr ?_
    rw [List.map_map]
    exact List.mem_map.mpr ⟨mac, by simp, hm⟩
  rw [put_old _ hmem]
  show (putAll _ _ _).map f = _
  rw [map_putAll EapAkaPrimeAttr.attrType hf, List.map_append, List.map_append, List.map_cons,
    List.map_cons, hkeep pre hpre, hkeep post hpost, hmac, List.map_nil, List.map_append, List.map_cons]

/-! ## received packets -/

/-- the octets behind the AKA' header are the attributes `ws` and, behind them, `tail` -/
structure AkaPacket (b : Bytes) (ws : List WireAttr) (tail : Bytes) : Prop where
  attributes : b.drop 8 = ws.flatMap WireAttr.octets ++ tail
  ok : ∀ w ∈ ws, w.Ok
  short : tail.length ≤ 1

theorem unmarshal_akaPrime {b sp : Bytes} {d : EapTypeData} :
    EapTypeData.unmarshal eapTypeAkaPrime ⟨b, sp⟩ = .ok d ↔
      ∃ e, EapAkaPrime.unmarshal b EapAkaPrime.zero = (.ok (), e) ∧ d = .akaPrime e := by
  show (fun _ => EapTypeData.akaPrime (EapAkaPrime.unmarshal b EapAkaPrime.zero).2) <$>
    (EapAkaPrime.unmarshal b EapAkaPrime.zero).1 = _ ↔ _
  generalize EapAkaPrime.unmarshal b EapAkaPrime.zero = u
  obtain ⟨r, e⟩ := u
  show (fun _ => EapTypeData.akaPrime e) <$> r = .ok d ↔ _
  rw [Outcome.map_eq_ok]
  constructor
  · intro h
    obtain ⟨_, rfl, rfl⟩ := h
    exact ⟨e, rfl, rfl⟩
  · intro h
    obtain ⟨e', he, rfl⟩ := h
    obtain ⟨rfl, rfl⟩ := Prod.mk.inj he
    exact ⟨(), rfl, rfl⟩

/-- an accepted AKA' packet: its octets and what they are read as -/
theorem akaPrime_accepted {b sp : Bytes} {e : EAP} (h : EAP.unmarshal EAP.zero ⟨b, sp⟩ = .ok e)
    (ht : b[4]? = some eapTypeAkaPrime) :
    ∃ code identifier sub r1 r2 d, b.length < 65536 ∧
      b = eapHeader code identifier b.length ++ [eapTypeAkaPrime, sub, r1, r2] ++ b.drop 8 ∧
      EapAkaPrime.unmarshal (eapTypeAkaPrime :: sub :: r1 :: r2 :: b.drop 8) EapAkaPrime.zero =
        (.ok (), d) ∧
      e = ⟨code, identifier, some (.akaPrime d)⟩ := by
  rcases EAP.unmarshal_iff.mp h with ⟨rfl, _⟩ | ⟨code, identifier, body, hb, hlt, hbody⟩
  · exact absurd ht (by simp)
  obtain ⟨x, y, hxy, hn⟩ := exists_octets_putUint16 (UInt16.ofNat (4 + body.length))
  have hb' : b = code :: identifier :: x :: y :: body := by
    rw [hb, eapHeader, hxy]
    rfl
  have hlen : b.length = 4 + body.length := by rw [hb']; simp only [List.length_cons]; omega
  rcases hbody with ⟨rfl, _⟩ | ⟨t, rest, d, rfl, _, hd, rfl⟩
  · rw [hb'] at ht
    exact absurd ht (by simp)
  have htt : t = eapTypeAkaPrime := by
    rw [hb'] at ht
    injection ht
  subst htt
  obtain ⟨d', hd', rfl⟩ := unmarshal_akaPrime.mp hd
  obtain ⟨sub, r1, r2, rest', hr⟩ := EapAkaPrime.unmarshal_type hd'
  have hdrop : b.drop 8 = rest' := by rw [hb', hr]; rfl
  refine ⟨code, identifier, sub, r1, r2, d', by omega, ?_, ?_, rfl⟩
  · rw [hr] at hb
    rw [hdrop, hlen, hr]
    exact hb
  · rw [hdrop, ← hr]
    exact hd'

theorem exists_akaPacket {b sp : Bytes} {e : EAP} (h : EAP.unmarshal EAP.zero ⟨b, sp⟩ = .ok e)
    (ht : b[4]? = some eapTypeAkaPrime) : ∃ ws tail, AkaPacket b ws tail := by
  obtain ⟨code, identifier, sub, r1, r2, d, _, _, hd, _⟩ := akaPrime_accepted h ht
  obtain ⟨sub', r1', r2', ws, tail, hrest, hok, htail, _⟩ := EapAkaPrime.unmarshal_iff.mp hd
  simp only [List.cons.injEq] at hrest
  exact ⟨ws, tail, hrest.2.2.2.2, hok, htail⟩

/-- what a received packet is read as -/
theorem akaPrime_received {b sp tail : Bytes} {e : EAP} {ws : List WireAttr}
    (h : EAP.unmarshal EAP.zero ⟨b, sp⟩ = .ok e) (ht : b[4]? = some eapTypeAkaPrime)
    (hp : AkaPacket b ws tail) :
    ∃ code identifier sub r1 r2, b.length < 65536 ∧
      b = eapHeader code identifier b.length ++ [eapTypeAkaPrime, sub, r1, r2] ++
        (ws.flatMap WireAttr.octets ++ tail) ∧
      e = ⟨code, identifier, some (.akaPrime
        ((EapAkaPrime.blank sub (UInt16.ofNat (r1.toNat * 256 + r2.toNat))).storeAll
          (ws.map WireAttr.attr)))⟩ := by
  obtain ⟨code, identifier, sub, r1, r2, d, hlt, hb, hd, he⟩ := akaPrime_accepted h ht
  rw [hp.attributes] at hb hd
  have hd' := (EapAkaPrime.unmarshal_iff (e := EapAkaPrime.zero)).mpr
    ⟨sub, r1, r2, ws, tail, rfl, hp.ok, hp.short, rfl⟩
  refine ⟨code, identifier, sub, r1, r2, hlt, hb, ?_⟩
  rw [he, (Prod.mk.inj (hd.symm.trans hd')).2]

/-! ## what the MAC is computed over -/

/-- the encoding of a packet, from the octets of its attributes -/
def akaOctets (code identifier sub r1 r2 : UInt8) (attributes : Bytes) : Bytes :=
  eapHeader code identifier (8 + attributes.length) ++ [eapTypeAkaPrime, sub, r1, r2] ++ attributes

theorem akaOctets_inj {code identifier sub r1 r2 : UInt8} {x y : Bytes} :
    akaOctets code identifier sub r1 r2 x = akaOctets code identifier sub r1 r2 y ↔ x = y := by
  constructor
  · intro h
    unfold akaOctets at h
    exact (List.append_inj h (by simp [eapHeader, length_putUint16])).2
  · rintro rfl
    rfl

theorem hmac_sliceTo {C : Crypto} (hC : C.Lawful) (key data : Bytes) :
    (do let sum ← (Slice.ofList (C.hmac .sha256 key data)).sliceTo 16; pure sum.data) =
      Outcome.ok ((C.hmac .sha256 key data).take 16) := by
  have hlen : 16 ≤ (Slice.ofList (C.hmac .sha256 key data)).len := by
    rw [Slice.len_ofList, hC.hmac_length]
    decide
  rw [Slice.sliceTo_data _ hlen]
  rfl

theorem calcMac_holds {C : Crypto} (hC : C.Lawful) (key : Bytes) (code identifier : UInt8)
    {r1 r2 : UInt8}
    {d : EapAkaPrime} {l : List EapAkaPrimeAttr} (hd : d.Holds l)
    (hr : d.reserved = UInt16.ofNat (r1.toNat * 256 + r2.toNat))
    (hlen : 8 + ((put EapAkaPrimeAttr.attrType l macZero).flatMap EapAkaPrimeAttr.octets).length
      < 65536) :
    (EAP.calcEapAkaPrimeAtMAC C key ⟨code, identifier, some (.akaPrime d)⟩).1 =
      .ok ((C.hmac .sha256 key (akaOctets code identifier d.subType r1 r2
        ((put EapAkaPrimeAttr.attrType l macZero).flatMap EapAkaPrimeAttr.octets))).take 16) := by
  have hm := (holds_initMAC hd).marshal
  have hhdr : (EapAkaPrime.initMAC d).2.subType = d.subType ∧
      (EapAkaPrime.initMAC d).2.reserved = d.reserved := ⟨rfl, rfl⟩
  rw [hhdr.1, hhdr.2, hr, putUint16_ofOctets] at hm
  generalize hE : (put EapAkaPrimeAttr.attrType l macZero).flatMap EapAkaPrimeAttr.octets = E at *
  have hmar : (⟨code, identifier, some (.akaPrime (EapAkaPrime.initMAC d).2)⟩ : EAP).marshal =
      .ok (akaOctets code identifier d.subType r1 r2 E) := by
    unfold EAP.marshal
    simp only [EapTypeData.marshal, hm, Outcome.wrapf_ok, Outcome.ok_bind]
    have hdl : 4 + ([eapTypeAkaPrime, d.subType] ++ [r1, r2] ++ E).length = 8 + E.length := by
      simp only [List.length_append, List.length_cons, List.length_nil]
      omega
    rw [hdl, if_neg (by omega)]
    simp [akaOctets, eapHeader]
  show ((EapAkaPrime.initMAC d).1.wrapf _ >>= fun _ =>
    (EAP.marshal ⟨code, identifier, some (.akaPrime (EapAkaPrime.initMAC d).2)⟩).wrapf _ >>= fun x =>
      _) = _
  rw [hmar, initMAC_eq]
  exact hmac_sliceTo hC key _

theorem length_reserialised {ws : List WireAttr} (hw : ∀ w ∈ ws, w.Ok)
    (hh : ∀ w ∈ ws, attrKind w.type ≠ .unhandled) :
    ((putAll EapAkaPrimeAttr.attrType [] (ws.map WireAttr.attr)).flatMap
      EapAkaPrimeAttr.octets).length ≤ (ws.flatMap WireAttr.octets).length := by
  have hle := sum_putAll_le EapAkaPrimeAttr.attrType (fun a => a.octets.length)
    (l := []) List.nodup_nil (ws.map WireAttr.attr)
  rw [List.map_nil, List.sum_nil] at hle
  rw [sum_length_octets hw hh, List.length_flatMap]
  omega

/-- the attributes of a received packet with the value of AT_MAC set to zero -/
theorem zeroed_mem {P : WireAttr → Prop} {pre post : List WireAttr} {mac : WireAttr}
    (h : ∀ w ∈ pre ++ mac :: post, P w) (hz : P mac → P mac.zeroed) :
    ∀ w ∈ pre ++ mac.zeroed :: post, P w := by
  intro w hw
  rcases List.mem_append.mp hw with hw | hw
  · exact h w (List.mem_append.mpr (Or.inl hw))
  rcases List.mem_cons.mp hw with rfl | hw
  · exact hz (h mac (by simp))
  · exact h w (List.mem_append.mpr (Or.inr (List.mem_cons_of_mem _ hw)))

/-- **The MAC of a received packet** is computed over its header and the stored attributes, where
the octets received end in the attributes as they came. -/
theorem calcMac_received {b sp tail : Bytes} {e : EAP} {pre post : List WireAttr} {mac : WireAttr}
    (h : EAP.unmarshal EAP.zero ⟨b, sp⟩ = .ok e) (ht : b[4]? = some eapTypeAkaPrime)
    (hp : AkaPacket b (pre ++ mac :: post) tail)
    (hh : ∀ w ∈ pre ++ mac :: post, attrKind w.type ≠ .unhandled) (hm : mac.type = atMAC)
    (hpre : ∀ w ∈ pre, w.type ≠ atMAC) (hpost : ∀ w ∈ post, w.type ≠ atMAC) :
    ∃ code identifier sub r1 r2,
      zeroAt b (8 + (pre.flatMap WireAttr.octets).length + 4) =
        akaOctets code identifier sub r1 r2
          ((pre ++ mac.zeroed :: post).flatMap WireAttr.octets ++ tail) ∧
      ∀ C : Crypto, C.Lawful → ∀ key, (EAP.calcEapAkaPrimeAtMAC C key e).1 =
        .ok ((C.hmac .sha256 key (akaOctets code identifier sub r1 r2
          ((putAll EapAkaPrimeAttr.attrType [] ((pre ++ mac.zeroed :: post).map WireAttr.attr)).flatMap
            EapAkaPrimeAttr.octets))).take 16) := by
  obtain ⟨code, identifier, sub, r1, r2, hlt, hb, rfl⟩ := akaPrime_received h ht hp
  have hmac : mac.Ok := hp.ok mac (by simp)
  have hlenf : ((pre ++ mac.zeroed :: post).flatMap WireAttr.octets).length =
      ((pre ++ mac :: post).flatMap WireAttr.octets).length := by
    simp only [List.flatMap_append, List.flatMap_cons, List.length_append, WireAttr.octets,
      List.length_cons, WireAttr.zeroed, (mac_shape hm hmac).2.2.1, List.length_replicate]
  have hblen : b.length = 8 + ((pre ++ mac :: post).flatMap WireAttr.octets ++ tail).length := by
    have hl := congrArg List.length hb
    simp only [List.length_append, eapHeader, List.length_cons, List.length_nil,
      length_putUint16] at hl ⊢
    omega
  refine ⟨code, identifier, sub, r1, r2, ?_, ?_⟩
  · have hz := zeroAt_octets (eapHeader code identifier b.length ++
      [eapTypeAkaPrime, sub, r1, r2]) (by simp [eapHeader, length_putUint16]) pre post tail hmac hm
    rw [← hb] at hz
    rw [hz, akaOctets, List.length_append, hlenf, ← List.length_append, ← hblen]
  · intro C hC key
    have hput := put_macZero hmac hm hpre hpost
    have hholds := holds_storeAll (holds_blank sub (UInt16.ofNat (r1.toNat * 256 + r2.toNat)))
      ((pre ++ mac :: post).map WireAttr.attr)
    have hhdr := storeAll_header (EapAkaPrime.blank sub (UInt16.ofNat (r1.toNat * 256 + r2.toNat)))
      ((pre ++ mac :: post).map WireAttr.attr)
    have hle := length_reserialised (zeroed_mem hp.ok fun h => ok_zeroed hm h)
      (zeroed_mem hh fun h => h)
    have hres := calcMac_holds hC key code identifier hholds hhdr.2
      (by rw [hput]; rw [List.length_append] at hblen; omega)
    rw [hres, hput, hhdr.1]
    rfl

/-! ## when these are the octets received -/

/-- an HMAC that tells one text from all others -/
def markCrypto (data : Bytes) : Crypto where
  hmac h _ x := List.replicate h.size (if x = data then 0 else 1)
  aesEncrypt _ b := b
  aesDecrypt _ b := b

theorem markCrypto_lawful (data : Bytes) : (markCrypto data).Lawful :=
  ⟨fun h _ _ => List.length_replicate, fun _ _ _ h => h, fun _ _ _ _ => rfl⟩

theorem eq_of_markCrypto {x data key : Bytes}
    (h : ((markCrypto data).hmac .sha256 key x).take 16 =
      ((markCrypto data).hmac .sha256 key data).take 16) : x = data := by
  by_contra hx
  simp only [markCrypto, if_neg hx, if_true] at h
  exact absurd h (by decide)

/-- **The MAC is computed over the octets received**, for every key and every HMAC, iff the packet
is the encoding of what it is read as: nothing behind the last attribute, no attribute type twice,
no padding, and zeros in the reserved octets of AT_RAND, AT_AUTN, AT_MAC and AT_CHECKCODE. -/
theorem calcMac_iff {b sp : Bytes} {e : EAP} (h : EAP.unmarshal EAP.zero ⟨b, sp⟩ = .ok e)
    (ht : b[4]? = some eapTypeAkaPrime) :
    (∃ ws tail, AkaPacket b ws tail) ∧
    ∀ (pre : List WireAttr) (mac : WireAttr) (post : List WireAttr) (tail : Bytes),
      AkaPacket b (pre ++ mac :: post) tail →
      (∀ w ∈ pre ++ mac :: post, attrKind w.type ≠ .unhandled) → mac.type = atMAC →
      (∀ w ∈ pre, w.type ≠ atMAC) → (∀ w ∈ post, w.type ≠ atMAC) →
      ((∀ C : Crypto, C.Lawful → ∀ key, (EAP.calcEapAkaPrimeAtMAC C key e).1 =
          .ok ((C.hmac .sha256 key
            (zeroAt b (8 + (pre.flatMap WireAttr.octets).length + 4))).take 16)) ↔
        tail = [] ∧ ((pre ++ mac :: post).map WireAttr.type).Nodup ∧
          ∀ w ∈ pre ++ mac :: post, w.Exact) := by
  refine ⟨exists_akaPacket h ht, ?_⟩
  intro pre mac post tail hp hh hm hpre hpost
  obtain ⟨code, identifier, sub, r1, r2, hz, hcalc⟩ := calcMac_received h ht hp hh hm hpre hpost
  have hiff := @reserialise_iff (pre ++ mac.zeroed :: post) tail
    (zeroed_mem hp.ok fun h => ok_zeroed hm h) (zeroed_mem hh fun h => h)
  have htypes : (pre ++ mac.zeroed :: post).map WireAttr.type =
      (pre ++ mac :: post).map WireAttr.type := by
    simp only [List.map_append, List.map_cons]
    rfl
  have hexact : (∀ w ∈ pre ++ mac.zeroed :: post, w.Exact) ↔ ∀ w ∈ pre ++ mac :: post, w.Exact := by
    simp only [List.forall_mem_append, List.forall_mem_cons]
    rfl
  rw [htypes, hexact] at hiff
  rw [← hiff, hz]
  constructor
  · intro hall
    have hC := markCrypto_lawful (akaOctets code identifier sub r1 r2
      ((pre ++ mac.zeroed :: post).flatMap WireAttr.octets ++ tail))
    have hone := hall _ hC []
    rw [hcalc _ hC] at hone
    injection hone with hone
    exact akaOctets_inj.mp (eq_of_markCrypto hone)
  · intro heq C hC key
    rw [hcalc C hC key, heq]

/-- a challenge with AT_RAND and AT_MAC, both with zeros in the reserved octets -/
def challenge : Bytes :=
  [1, 7, 0, 48, 50, 1, 0, 0] ++ ([1, 5, 0, 0] ++ List.replicate 16 0x5a) ++
    ([11, 5, 0, 0] ++ List.replicate 16 0xc3)

theorem calcMac_challenge :
    ∃ e, EAP.unmarshal EAP.zero (Slice.ofList challenge) = .ok e ∧
      challenge[4]? = some eapTypeAkaPrime ∧
      ∀ C : Crypto, C.Lawful → ∀ key, (EAP.calcEapAkaPrimeAtMAC C key e).1 =
        .ok ((C.hmac .sha256 key (zeroAt challenge 32)).take 16) := by
  obtain ⟨e, he⟩ : ∃ e, EAP.unmarshal EAP.zero (Slice.ofList challenge) = .ok e := ⟨_, rfl⟩
  refine ⟨e, he, rfl, ?_⟩
  refine ((calcMac_iff he rfl).2
    [⟨1, 5, [0, 0], List.replicate 16 0x5a, []⟩]
    ⟨11, 5, [0, 0], List.replicate 16 0xc3, []⟩ [] [] ⟨rfl, ?_, by decide⟩
    ?_ rfl (by decide) (by decide)).mpr ⟨rfl, by decide, ?_⟩
  · simp only [List.cons_append, List.nil_append, List.forall_mem_cons]
    exact ⟨⟨rfl, rfl, rfl, rfl⟩, ⟨rfl, rfl, rfl, rfl⟩, by simp⟩
  · decide
  · simp only [List.cons_append, List.nil_append, List.forall_mem_cons]
    exact ⟨⟨rfl, fun _ => rfl⟩, ⟨rfl, fun _ => rfl⟩, by simp⟩

/-- a response with five octets of RES, three octets of padding and AT_MAC -/
def paddedResponse : Bytes :=
  [2, 7, 0, 40, 50, 1, 0, 0] ++ [3, 3, 0, 40, 0xa1, 0xa2, 0xa3, 0xa4, 0xa5, 0, 0, 0] ++
    ([11, 5, 0, 0] ++ List.replicate 16 0xc3)

/-- what the MAC of it is computed over: the padding is lost, and the length is that without it -/
def unpaddedResponse : Bytes :=
  [2, 7, 0, 37, 50, 1, 0, 0] ++ [3, 3, 0, 40, 0xa1, 0xa2, 0xa3, 0xa4, 0xa5] ++
    ([11, 5, 0, 0] ++ List.replicate 16 0)

theorem calcMac_padding_lost :
    ∃ e, EAP.unmarshal EAP.zero (Slice.ofList paddedResponse) = .ok e ∧
      (∀ C : Crypto, C.Lawful → ∀ key, (EAP.calcEapAkaPrimeAtMAC C key e).1 =
        .ok ((C.hmac .sha256 key unpaddedResponse).take 16)) ∧
      unpaddedResponse ≠ zeroAt paddedResponse 24 ∧
      ∃ C : Crypto, C.Lawful ∧ ∀ key, (EAP.calcEapAkaPrimeAtMAC C key e).1 ≠
        .ok ((C.hmac .sha256 key (zeroAt paddedResponse 24)).take 16) := by
  have hcalc : ∀ e, EAP.unmarshal EAP.zero (Slice.ofList paddedResponse) = .ok e →
      ∀ C : Crypto, C.Lawful → ∀ key, (EAP.calcEapAkaPrimeAtMAC C key e).1 =
        .ok ((C.hmac .sha256 key unpaddedResponse).take 16) := by
    intro e he C hC key
    injection (show Outcome.ok _ = Outcome.ok e from he) with he
    subst he
    exact hmac_sliceTo hC key unpaddedResponse
  have hne : unpaddedResponse ≠ zeroAt paddedResponse 24 := by decide
  refine ⟨_, rfl, hcalc _ rfl, hne, markCrypto (zeroAt paddedResponse 24), markCrypto_lawful _, ?_⟩
  intro key h
  rw [hcalc _ rfl _ (markCrypto_lawful _)] at h
  injection h with h
  exact hne (eq_of_markCrypto h)

end Ike

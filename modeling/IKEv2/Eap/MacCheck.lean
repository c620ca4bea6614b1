import IKEv2.Eap.Calls
import IKEv2.Eap.Reread

/-!
# The MAC of a packet that was built, at the peer

The sender sets the attributes of a new packet, computes the MAC, installs it as AT_MAC and encodes the
packet.  The peer decodes it and computes the MAC once more, over what it has stored: the padding of
AT_RES and AT_KDF_INPUT is not stored, so it is not under the peer's MAC.

* `wire_exact_iff`       which set values have no padding on the wire;
* `macPacket_wire`       the octets of the packet with the MAC, and those under the MAC;
* `mac_verifies_iff`     the peer finds the MAC that was sent iff no value is padded.
-/

set_option linter.unusedVariables false

namespace Ike
open GoLang

/-! ## set values on the wire -/

/-- an attribute and its octets on the wire, piece by piece -/
theorem pieces_of_octets {w : WireAttr} {a : EapAkaPrimeAttr} (hw : w.Ok) (ht : a.attrType = w.type)
    (hh : attrKind w.type ≠ .unhandled) (ho : w.octets = a.octets) :
    w.value ++ w.padding = a.value ∧ (attrKind w.type ≠ .auts → w.field = putUint16 a.reserved) := by
  have hlen := length_field hw hh
  rw [WireAttr.octets, EapAkaPrimeAttr.octets, ht, List.append_assoc] at ho
  by_cases hk : attrKind w.type = .auts
  · rw [if_pos hk] at hlen
    rw [if_neg (not_not_intro (attrKind_auts.mp hk)), List.length_eq_zero_iff.mp hlen] at ho
    exact ⟨(List.cons.inj (List.cons.inj ho).2).2, fun h => absurd hk h⟩
  · rw [if_neg hk] at hlen
    rw [if_pos fun h => hk (attrKind_auts.mpr h), List.append_assoc] at ho
    have hrest : w.field ++ (w.value ++ w.padding) = putUint16 a.reserved ++ a.value :=
      (List.cons.inj (List.cons.inj ho).2).2
    obtain ⟨hfield, hvalue⟩ := List.append_inj hrest (by rw [hlen, length_putUint16])
    exact ⟨hvalue, fun _ => hfield⟩

theorem putUint16_zero : putUint16 0 = [0, 0] := putUint16_ofOctets 0 0

/-- **Which set values have no padding on the wire.** -/
theorem wire_exact_iff {t : UInt8} {value : Bytes} {a : EapAkaPrimeAttr} {w : WireAttr}
    (h : EapAkaPrimeAttr.setAttr t value = .ok a) (hw : w.Ok) (ht : w.type = t)
    (ho : w.octets = a.octets) (hv : w.attr.getValue = value) : w.Exact ↔ ¬ PadsValue t value := by
  subst ht
  have hok := setAttr_ok h
  have hh : attrKind w.type ≠ .unhandled := by
    intro hk
    rw [hk] at hok
    exact hok
  obtain ⟨hvalue, hfield⟩ := pieces_of_octets hw (setAttr_type h) hh ho
  -- two octets that are not kept are zeros
  have hzero : attrKind w.type = .value16 ∨ attrKind w.type = .checkcode → w.field = [0, 0] := by
    intro hk
    rw [hfield (by rcases hk with hk | hk <;> rw [hk] <;> decide)]
    rcases hk with hk | hk
    · rw [hk] at hok
      rw [hok.2]
      exact putUint16_zero
    · rw [hk] at hok
      rw [hok]
      exact putUint16_zero
  have hpad : w.padding = [] ↔ a.getValue = value := by
    by_cases hk : attrKind w.type = .code
    · have hnil : w.padding = [] := by
        unfold WireAttr.Ok at hw
        rw [hk] at hw
        exact hw.2.2
      refine iff_of_true hnil ((getValue_iff h).mpr fun hp => ?_)
      rcases hp.1 with ⟨hres, _⟩ | hkdf
      · rw [hres] at hk
        exact absurd hk (by decide)
      · rw [hkdf] at hk
        exact absurd hk (by decide)
    · rw [getValue_of_kind (by rw [setAttr_type h]; exact hk), ← hvalue, ← hv,
        getValue_of_kind (show attrKind w.attr.attrType ≠ .code from hk)]
      exact List.append_right_eq_self.symm
  rw [← getValue_iff h, ← hpad, WireAttr.Exact]
  exact and_iff_left hzero

/-- the nine types with a setter -/
def settableTypes : List UInt8 :=
  [atMAC, atRAND, atAUTN, atKDFINPUT, atRES, atKDF, atNOTIFICATION, atCHECKCODE, atAUTS]

theorem settable_of_handled {t : UInt8} (h : attrKind t ≠ .unhandled) : t ∈ settableTypes := by
  have ht := attrKind_types t
  unfold settableTypes
  cases hk : attrKind t with
  | value16 => rw [hk] at ht; rcases ht with rfl | rfl | rfl <;> simp
  | kdfInput => rw [hk] at ht; simp [ht]
  | res => rw [hk] at ht; simp [ht]
  | code => rw [hk] at ht; rcases ht with rfl | rfl <;> simp
  | checkcode => rw [hk] at ht; simp [ht]
  | auts => rw [hk] at ht; simp [ht]
  | unhandled => exact absurd hk h

/-- a set attribute is short -/
theorem length_set {t : UInt8} {value : Bytes} {a : EapAkaPrimeAttr} (hb : Bounded t value)
    (h : EapAkaPrimeAttr.setAttr t value = .ok a) : a.octets.length ≤ 256 := by
  have hok := setAttr_ok h
  have ht := attrKind_types t
  have hpad := (paddingBytes_spec (4 + value.length)).2
  have hle : a.octets.length ≤ 4 + a.value.length := by
    rw [EapAkaPrimeAttr.octets]
    by_cases hk : a.attrType ≠ atAUTS
    · rw [if_pos hk]
      simp only [List.length_append, List.length_cons, List.length_nil, length_putUint16]
      omega
    · rw [if_neg hk]
      simp only [List.length_append, List.length_cons, List.length_nil]
      omega
  refine hle.trans ?_
  cases hk : attrKind t with
  | value16 => rw [hk] at hok; rw [hok.2]; dsimp only; omega
  | auts => rw [hk] at hok; rw [hok.2]; dsimp only; omega
  | kdfInput =>
    rw [hk] at hok ht
    have hlen := hb.1 ht
    rw [hok, paddedAttr]
    simp only [List.length_append, List.length_replicate]
    omega
  | res =>
    rw [hk] at hok
    rw [hok.2, paddedAttr]
    simp only [List.length_append, List.length_replicate]
    omega
  | code =>
    rw [hk] at hok
    obtain ⟨x, y, _, rfl⟩ := hok
    exact show 4 + 0 ≤ 256 by omega
  | checkcode =>
    rw [hk] at hok ht
    have hlen := (hb.2 ht).2
    rw [hok]
    dsimp only
    omega
  | unhandled => rw [hk] at hok; exact False.elim hok

/-- the attributes of a packet that was made by `sets`, on the wire -/
structure Wires (sets : List (UInt8 × Bytes)) (e : EapAkaPrime) (W : UInt8 → WireAttr) : Prop where
  ok : ∀ t ∈ e.getAttrsKeys, (W t).Ok
  type : ∀ t ∈ e.getAttrsKeys, (W t).type = t
  handled : ∀ t ∈ e.getAttrsKeys, attrKind t ≠ .unhandled
  octets : ∀ t ∈ e.getAttrsKeys, e.attrOctets t = .ok (W t).octets
  short : ∀ t ∈ e.getAttrsKeys, (W t).octets.length ≤ 256
  exact : ∀ t ∈ e.getAttrsKeys, ∃ v, lastSet sets t = some v ∧ ((W t).Exact ↔ ¬ PadsValue t v)

theorem Carries.wires {sub : UInt8} {sets : List (UInt8 × Bytes)} {e : EapAkaPrime}
    (hc : Carries sub sets e) (hb : ∀ x ∈ sets, Bounded x.1 x.2) : ∃ W, Wires sets e W := by
  have hone : ∀ t ∈ e.getAttrsKeys, ∃ w : WireAttr, w.Ok ∧ w.type = t ∧ attrKind t ≠ .unhandled ∧
      e.attrOctets t = .ok w.octets ∧ w.octets.length ≤ 256 ∧
      ∃ v, lastSet sets t = some v ∧ (w.Exact ↔ ¬ PadsValue t v) := by
    intro t ht
    obtain ⟨a, ha⟩ := Option.isSome_iff_exists.mp ((mem_getAttrsKeys hc.order).mp ht)
    have hl := hc.lookup t
    rw [ha] at hl
    obtain ⟨v, hv, hset⟩ := Option.map_eq_some_iff.mp hl.symm
    have hbv : Bounded t v := hb _ (mem_of_lastSet hv)
    obtain ⟨w, hw, hty, ho, hval⟩ := setAttr_wire hbv hset
    refine ⟨w, hw, hty, ?_, ?_, ?_, v, hv, wire_exact_iff hset hw hty ho hval⟩
    · intro hk
      have hok := setAttr_ok hset
      rw [hk] at hok
      exact hok
    · rw [EapAkaPrime.attrOctets, ha, ho]
    · rw [ho]
      exact length_set hbv hset
  have : Nonempty WireAttr := ⟨⟨0, 0, [], [], []⟩⟩
  choose! W h1 h2 h3 h4 h5 h6 using hone
  exact ⟨W, h1, h2, h3, h4, h5, h6⟩

/-- with nine types there is always room -/
theorem Wires.length_le {sets : List (UInt8 × Bytes)} {e : EapAkaPrime} {W : UInt8 → WireAttr}
    (h : Wires sets e W) (hn : e.getAttrsKeys.Nodup) :
    ((e.getAttrsKeys.map W).flatMap WireAttr.octets).length ≤ 2304 := by
  have hkeys : e.getAttrsKeys.length ≤ 9 :=
    (List.subperm_of_subset hn fun t ht => settable_of_handled (h.handled t ht)).length_le
  have hsum := List.sum_le_card_nsmul (e.getAttrsKeys.map fun t => (W t).octets.length) 256
    fun n hn => by
      obtain ⟨t, ht, rfl⟩ := List.mem_map.mp hn
      exact h.short t ht
  rw [List.length_map, nsmul_eq_mul, Nat.cast_id] at hsum
  rw [List.flatMap_map, List.length_flatMap]
  omega

/-! ## the packet -/

theorem akaPacket_marshal {d : EapAkaPrime} {sub : UInt8} {E : Bytes}
    (h : d.marshal = .ok ([eapTypeAkaPrime, sub, 0, 0] ++ E)) (hlen : E.length ≤ 2304)
    (code identifier : UInt8) :
    (akaPacket code identifier d).marshal = .ok (akaOctets code identifier sub 0 0 E) := by
  refine EAP.marshal_some_iff.mpr ⟨_, h, ?_, ?_⟩
  · simp only [List.length_append, List.length_cons, List.length_nil]
    omega
  · rw [akaOctets, List.append_assoc, List.length_append]
    simp only [List.length_cons, List.length_nil]
    congr 2
    omega

theorem Wires.marshal {sub : UInt8} {sets : List (UInt8 × Bytes)} {e : EapAkaPrime}
    {W : UInt8 → WireAttr} (hc : Carries sub sets e) (h : Wires sets e W) :
    e.marshal =
      .ok ([eapTypeAkaPrime, sub, 0, 0] ++ (e.getAttrsKeys.map W).flatMap WireAttr.octets) := by
  rw [EapAkaPrime.marshal, emitAll_ok h.octets, hc.subType, hc.reserved, List.flatMap_map,
    putUint16_zero]
  rfl

/-- what the peer makes of it -/
theorem unmarshal_akaOctets {ws : List WireAttr} (hok : ∀ w ∈ ws, w.Ok)
    (hlen : (ws.flatMap WireAttr.octets).length ≤ 2304) (code identifier sub : UInt8) (sp : Bytes) :
    ∃ e, EAP.unmarshal EAP.zero
      ⟨akaOctets code identifier sub 0 0 (ws.flatMap WireAttr.octets), sp⟩ = .ok e := by
  have hd := (EapAkaPrime.unmarshal_iff (e := EapAkaPrime.zero)).mpr
    ⟨sub, 0, 0, ws, [], by rw [List.append_nil], hok, Nat.zero_le _, rfl⟩
  refine ⟨_, EAP.unmarshal_iff.mpr (.inr ⟨code, identifier,
    eapTypeAkaPrime :: sub :: 0 :: 0 :: ws.flatMap WireAttr.octets, ?_, ?_, .inr ⟨_, _, _, rfl, ?_,
      unmarshal_akaPrime.mpr ⟨_, hd, rfl⟩, rfl⟩⟩)⟩
  · rw [akaOctets, List.append_assoc]
    simp only [List.length_cons]
    congr 2
    omega
  · simp only [List.length_cons]
    omega
  · decide

/-- the MAC is over the encoding of the packet with zeros in AT_MAC -/
theorem calcMac_text {C : Crypto} (hC : C.Lawful) (key : Bytes) {code identifier : UInt8}
    {d : EapAkaPrime} {x : Bytes}
    (h : (akaPacket code identifier (EapAkaPrime.initMAC d).2).marshal = .ok x) :
    (EAP.calcEapAkaPrimeAtMAC C key (akaPacket code identifier d)).1 =
      .ok ((C.hmac .sha256 key x).take 16) := by
  show ((EapAkaPrime.initMAC d).1.wrapf _ >>= fun _ =>
    (akaPacket code identifier (EapAkaPrime.initMAC d).2).marshal.wrapf _ >>= fun x => _) = _
  rw [h, initMAC_eq]
  exact hmac_sliceTo hC key _

/-! ## with the MAC installed -/

/-- the octets of a packet with AT_MAC, and those under the MAC -/
structure MacWire (d : EapAkaPrime) (sub : UInt8) (pre post : List WireAttr) (m : WireAttr) :
    Prop where
  sent : ∀ code identifier, (akaPacket code identifier d).marshal =
    .ok (akaOctets code identifier sub 0 0 ((pre ++ m :: post).flatMap WireAttr.octets))
  covered : ∀ code identifier, (akaPacket code identifier (EapAkaPrime.initMAC d).2).marshal =
    .ok (akaOctets code identifier sub 0 0 ((pre ++ m.zeroed :: post).flatMap WireAttr.octets))
  ok : ∀ w ∈ pre ++ m :: post, w.Ok
  handled : ∀ w ∈ pre ++ m :: post, attrKind w.type ≠ .unhandled
  type : m.type = atMAC
  nodup : ((pre ++ m :: post).map WireAttr.type).Nodup
  length_le : ((pre ++ m :: post).flatMap WireAttr.octets).length ≤ 2304

theorem length_zeroed (pre post : List WireAttr) {m : WireAttr} (hm : m.type = atMAC)
    (hw : m.Ok) : ((pre ++ m.zeroed :: post).flatMap WireAttr.octets).length =
      ((pre ++ m :: post).flatMap WireAttr.octets).length := by
  simp only [List.flatMap_append, List.flatMap_cons, List.length_append, WireAttr.octets,
    WireAttr.zeroed, List.length_cons, List.length_replicate, (mac_shape hm hw).2.2.1]

/-- the encoding of the attributes apart from AT_MAC is not touched by `initMAC` -/
theorem attrOctets_initMAC {d : EapAkaPrime} {t : UInt8} (ht : t ≠ atMAC) :
    (EapAkaPrime.initMAC d).2.attrOctets t = d.attrOctets t := by
  rw [EapAkaPrime.attrOctets, EapAkaPrime.attrOctets, (macCleared_initMAC d).others t ht]

theorem getAttrsKeys_initMAC {d : EapAkaPrime} (ho : d.attributeOrder = none)
    (hm : atMAC ∈ d.getAttrsKeys) :
    (EapAkaPrime.initMAC d).2.attributeOrder = none ∧
      (EapAkaPrime.initMAC d).2.getAttrsKeys = d.getAttrsKeys := by
  have hc := macCleared_initMAC d
  have hsome := (mem_getAttrsKeys ho).mp hm
  have ho' : (EapAkaPrime.initMAC d).2.attributeOrder = none := by
    rw [hc.order, ho]
    exact ite_self _
  refine ⟨ho', ?_⟩
  rw [getAttrsKeys_none ho, getAttrsKeys_none ho']
  refine List.filter_congr fun t _ => ?_
  by_cases ht : t = atMAC
  · rw [ht, hc.mac, hsome]
    rfl
  · rw [hc.others t ht]

theorem not_pads_mac (v : Bytes) : ¬ PadsValue atMAC v := by
  intro h
  rcases h.1 with ⟨hres, _⟩ | hkdf
  · exact absurd hres (by decide)
  · exact absurd hkdf (by decide)

/-- zeros in AT_MAC, and the other attributes as they were -/
theorem Wires.marshal_initMAC {sub : UInt8} {sets : List (UInt8 × Bytes)} {d : EapAkaPrime}
    {W : UInt8 → WireAttr} (hc : Carries sub sets d) (h : Wires sets d W) {p q : List UInt8}
    (hpq : d.getAttrsKeys = p ++ atMAC :: q) (hp : atMAC ∉ p) (hq : atMAC ∉ q) :
    (EapAkaPrime.initMAC d).2.marshal = .ok ([eapTypeAkaPrime, sub, 0, 0] ++
      (p.map W ++ (W atMAC).zeroed :: q.map W).flatMap WireAttr.octets) := by
  have hm : atMAC ∈ d.getAttrsKeys := by
    rw [hpq]
    simp
  obtain ⟨v, _, hexact⟩ := h.exact atMAC hm
  have hzero : (W atMAC).zeroed.octets = macZero.octets := by
    rw [← attr_zeroed (h.type _ hm) (h.ok _ hm)]
    refine ((octets_attr_iff (ok_zeroed (h.type _ hm) (h.ok _ hm)) ?_).mpr ?_).symm
    · exact (h.type _ hm).symm ▸ h.handled _ hm
    · exact hexact.mpr (not_pads_mac v)
  have hemit : ∀ t ∈ d.getAttrsKeys, (EapAkaPrime.initMAC d).2.attrOctets t =
      .ok (Function.update W atMAC (W atMAC).zeroed t).octets := by
    intro t ht
    by_cases htm : t = atMAC
    · rw [htm, Function.update_self, hzero]
      rfl
    · rw [Function.update_of_ne htm, attrOctets_initMAC htm]
      exact h.octets t ht
  have hkeep : ∀ l : List UInt8, atMAC ∉ l →
      l.map (Function.update W atMAC (W atMAC).zeroed) = l.map W := by
    intro l hl
    exact List.map_congr_left fun t ht =>
      Function.update_of_ne (fun htm => hl (by rw [← htm]; exact ht)) _ _
  have hcleared := macCleared_initMAC d
  rw [EapAkaPrime.marshal, (getAttrsKeys_initMAC hc.order hm).2, emitAll_ok hemit, hcleared.subType,
    hcleared.reserved, hc.subType, hc.reserved, putUint16_zero, ← List.flatMap_map, hpq,
    List.map_append, List.map_cons, hkeep p hp, hkeep q hq, Function.update_self]
  rfl

/-- **The octets of a packet with AT_MAC, and those under the MAC.** -/
theorem macPacket_wire {sub : UInt8} {sets : List (UInt8 × Bytes)} {d : EapAkaPrime}
    (hc : Carries sub sets d) (hb : ∀ x ∈ sets, Bounded x.1 x.2) (hm : atMAC ∈ d.getAttrsKeys) :
    ∃ pre post m, MacWire d sub pre post m ∧
      ((∀ w ∈ pre ++ m :: post, w.Exact) ↔ ∀ t v, lastSet sets t = some v → ¬ PadsValue t v) := by
  obtain ⟨W, hW⟩ := hc.wires hb
  have hn : d.getAttrsKeys.Nodup := (getAttrsKeys_sorted hc.order).imp fun hlt => UInt8.ne_of_lt hlt
  obtain ⟨p, q, hpq⟩ := List.append_of_mem hm
  have hsplit : d.getAttrsKeys.map W = p.map W ++ W atMAC :: q.map W := by
    rw [hpq, List.map_append, List.map_cons]
  have hmem : ∀ w ∈ p.map W ++ W atMAC :: q.map W, ∃ t ∈ d.getAttrsKeys, W t = w := by
    intro w hw
    rw [← hsplit] at hw
    exact List.mem_map.mp hw
  have hlen := hW.length_le hn
  rw [hsplit] at hlen
  have hpq' := hpq ▸ hn
  have hp : atMAC ∉ p := fun h => (List.nodup_append.mp hpq').2.2 _ h _ (List.mem_cons_self ..) rfl
  have hq : atMAC ∉ q := (List.nodup_cons.mp (List.nodup_append.mp hpq').2.1).1
  have htypes : (d.getAttrsKeys.map W).map WireAttr.type = d.getAttrsKeys := by
    rw [List.map_map]
    conv_rhs => rw [← List.map_id d.getAttrsKeys]
    exact List.map_congr_left fun t ht => hW.type t ht
  refine ⟨p.map W, q.map W, W atMAC, ⟨fun code identifier => ?_, fun code identifier => ?_, ?_, ?_,
    hW.type _ hm, ?_, hlen⟩, ?_⟩
  · refine akaPacket_marshal ?_ hlen code identifier
    rw [← hsplit]
    exact hW.marshal hc
  · refine akaPacket_marshal (hW.marshal_initMAC hc hpq hp hq) ?_ code identifier
    rw [length_zeroed _ _ (hW.type _ hm) (hW.ok _ hm)]
    exact hlen
  · intro w hw
    obtain ⟨t, ht, rfl⟩ := hmem w hw
    exact hW.ok t ht
  · intro w hw
    obtain ⟨t, ht, rfl⟩ := hmem w hw
    rw [hW.type t ht]
    exact hW.handled t ht
  · rw [← hsplit, htypes]
    exact hn
  · rw [← hsplit, List.forall_mem_map]
    constructor
    · intro hall t v hv
      have hl := congrArg Option.isSome (hc.lookup t)
      rw [Option.isSome_map, Option.isSome_map, hv] at hl
      have ht := (mem_getAttrsKeys hc.order).mpr hl
      obtain ⟨v', hv', hexact⟩ := hW.exact t ht
      obtain rfl := Option.some.inj (hv.symm.trans hv')
      exact hexact.mp (hall t ht)
    · intro hall t ht
      obtain ⟨v, hv, hexact⟩ := hW.exact t ht
      exact hexact.mpr (hall t v hv)

theorem akaOctets_header {code identifier sub r1 r2 code' identifier' sub' r1' r2' : UInt8}
    {x : Bytes} (h : akaOctets code identifier sub r1 r2 x =
      akaOctets code' identifier' sub' r1' r2' x) (y : Bytes) :
    akaOctets code identifier sub r1 r2 y = akaOctets code' identifier' sub' r1' r2' y := by
  simp only [akaOctets, eapHeader, List.append_assoc, List.cons_append, List.nil_append,
    List.cons.injEq, List.append_cancel_left_eq, and_true, true_and] at h ⊢
  exact h

theorem akaOctets_type (code identifier sub r1 r2 : UInt8) (x : Bytes) :
    (akaOctets code identifier sub r1 r2 x)[4]? = some eapTypeAkaPrime := by
  obtain ⟨y, z, hyz, _⟩ := exists_octets_putUint16 (UInt16.ofNat (8 + x.length))
  rw [akaOctets, eapHeader, hyz]
  rfl

/-- what the peer makes of it, and what its MAC is over -/
theorem MacWire.received {d : EapAkaPrime} {sub : UInt8} {pre post : List WireAttr} {m : WireAttr}
    (h : MacWire d sub pre post m) (code identifier : UInt8) (sp : Bytes) :
    ∃ e, EAP.unmarshal EAP.zero ⟨akaOctets code identifier sub 0 0
        ((pre ++ m :: post).flatMap WireAttr.octets), sp⟩ = .ok e ∧
      ∀ C : Crypto, C.Lawful → ∀ key, (EAP.calcEapAkaPrimeAtMAC C key e).1 =
        .ok ((C.hmac .sha256 key (akaOctets code identifier sub 0 0
          ((putAll EapAkaPrimeAttr.attrType [] ((pre ++ m.zeroed :: post).map WireAttr.attr)).flatMap
            EapAkaPrimeAttr.octets))).take 16) := by
  obtain ⟨e, he⟩ := unmarshal_akaOctets h.ok h.length_le code identifier sub sp
  have hn := h.nodup
  rw [List.map_append, List.map_cons, h.type] at hn
  have hpre : ∀ w ∈ pre, w.type ≠ atMAC := fun w hw =>
    (List.nodup_append.mp hn).2.2 _ (List.mem_map_of_mem hw) _ (List.mem_cons_self ..)
  have hpost : ∀ w ∈ post, w.type ≠ atMAC := fun w hw heq =>
    (List.nodup_cons.mp (List.nodup_append.mp hn).2.1).1 (heq ▸ List.mem_map_of_mem hw)
  have hm : m.Ok := h.ok m (by simp)
  have hhdr : ∀ n, (eapHeader code identifier n ++ [eapTypeAkaPrime, sub, 0, 0]).length = 8 := by
    intro n
    simp [eapHeader, length_putUint16]
  have hp : AkaPacket (akaOctets code identifier sub 0 0 ((pre ++ m :: post).flatMap
      WireAttr.octets)) (pre ++ m :: post) [] := by
    refine ⟨?_, h.ok, Nat.zero_le _⟩
    rw [List.append_nil]
    exact List.drop_left' (hhdr _)
  obtain ⟨c, i, s, r1, r2, hz, hcalc⟩ :=
    calcMac_received he (akaOctets_type ..) hp h.handled h.type hpre hpost
  have hz' := zeroAt_octets _ (hhdr (8 + ((pre ++ m :: post).flatMap WireAttr.octets).length)) pre post
    [] hm h.type
  rw [List.append_nil, List.append_nil] at hz'
  rw [List.append_nil] at hz
  have hheader : akaOctets c i s r1 r2 ((pre ++ m.zeroed :: post).flatMap WireAttr.octets) =
      akaOctets code identifier sub 0 0 ((pre ++ m.zeroed :: post).flatMap WireAttr.octets) := by
    rw [← hz, akaOctets, akaOctets, length_zeroed pre post h.type hm]
    exact hz'
  refine ⟨e, he, fun C hC key => ?_⟩
  rw [hcalc C hC key, akaOctets_header hheader]

/-- the MAC is over the same octets on both sides iff nothing is padded -/
theorem MacWire.same_iff {d : EapAkaPrime} {sub : UInt8} {pre post : List WireAttr} {m : WireAttr}
    (h : MacWire d sub pre post m) :
    (putAll EapAkaPrimeAttr.attrType [] ((pre ++ m.zeroed :: post).map WireAttr.attr)).flatMap
        EapAkaPrimeAttr.octets = (pre ++ m.zeroed :: post).flatMap WireAttr.octets ↔
      ∀ w ∈ pre ++ m :: post, w.Exact := by
  have hiff := @reserialise_iff (pre ++ m.zeroed :: post) []
    (zeroed_mem h.ok fun hw => ok_zeroed h.type hw) (zeroed_mem h.handled fun hw => hw)
  have htypes : (pre ++ m.zeroed :: post).map WireAttr.type =
      (pre ++ m :: post).map WireAttr.type := by
    simp only [List.map_append, List.map_cons]
    rfl
  have hexact : (∀ w ∈ pre ++ m.zeroed :: post, w.Exact) ↔ ∀ w ∈ pre ++ m :: post, w.Exact := by
    simp only [List.forall_mem_append, List.forall_mem_cons]
    rfl
  rw [List.append_nil, htypes, hexact] at hiff
  rw [hiff]
  exact ⟨fun hall => hall.2.2, fun hall => ⟨rfl, h.nodup, hall⟩⟩

/-! ## the peer -/

/-- the packet with its MAC computed and installed -/
theorem sent_wire {sub : UInt8} {sets : List (UInt8 × Bytes)} {d : EapAkaPrime}
    (hc : Carries sub sets d) (hb : ∀ x ∈ sets, Bounded x.1 x.2) (C : Crypto)
    (code identifier : UInt8) (key : Bytes) {mac : Bytes} (hmac : mac.length = 16) :
    ∃ pre post m,
      MacWire (runAka C d [.calcMac code identifier key, .setAttr atMAC mac]) sub pre post m ∧
      ((∀ w ∈ pre ++ m :: post, w.Exact) ↔ ∀ t v, lastSet sets t = some v → ¬ PadsValue t v) ∧
      (akaPacket code identifier (EapAkaPrime.initMAC d).2).marshal = .ok (akaOctets code identifier
        sub 0 0 ((pre ++ m.zeroed :: post).flatMap WireAttr.octets)) := by
  have hc0 : Carries sub (sets ++ [(atMAC, List.replicate 16 0)]) (EapAkaPrime.initMAC d).2 :=
    carries_setAttr hc (EapAkaPrime.setAttr_mac List.length_replicate d)
  have hc1 := carries_setAttr (x := (atMAC, mac)) hc0 (EapAkaPrime.setAttr_mac hmac _)
  have hrun : runAka C d [.calcMac code identifier key, .setAttr atMAC mac] =
      (EapAkaPrime.initMAC d).2.made.store ⟨atMAC, 5, 0, mac⟩ :=
    congrArg Prod.snd (EapAkaPrime.setAttr_mac hmac (EapAkaPrime.initMAC d).2)
  rw [← hrun] at hc1
  have hb1 : ∀ x ∈ sets ++ [(atMAC, List.replicate 16 0)] ++ [(atMAC, mac)], Bounded x.1 x.2 := by
    intro x hx
    have hmac : ∀ v, Bounded atMAC v :=
      fun v => ⟨fun ht => absurd ht (by decide), fun ht => absurd ht (by decide)⟩
    rcases List.mem_append.mp hx with hx | hx
    · rcases List.mem_append.mp hx with hx | hx
      · exact hb x hx
      · rw [List.mem_singleton.mp hx]
        exact hmac _
    · rw [List.mem_singleton.mp hx]
      exact hmac _
  have hkey : atMAC ∈ (runAka C d [.calcMac code identifier key, .setAttr atMAC mac]).getAttrsKeys := by
    rw [mem_getAttrsKeys hc1.order, hrun]
    rfl
  have hcalls : ∀ call ∈ [AkaCall.calcMac code identifier key, .setAttr atMAC mac], call.OnMac := by
    simp only [List.forall_mem_cons, List.not_mem_nil, false_implies, implies_true, and_true]
    exact ⟨trivial, rfl, hmac⟩
  obtain ⟨pre, post, m, hw, hiff⟩ := macPacket_wire hc1 hb1 hkey
  refine ⟨pre, post, m, hw, hiff.trans ?_, ?_⟩
  · refine forall_congr' fun t => forall_congr' fun v => ?_
    rw [lastSet_concat, lastSet_concat]
    by_cases ht : t = atMAC
    · rw [ht]
      exact iff_of_true (fun _ => not_pads_mac v) fun _ => not_pads_mac v
    · rw [if_neg ht, if_neg ht]
  · rw [← initMAC_run C d hcalls]
    exact hw.covered code identifier

/-- both ends: the sender's MAC is over `x`, the peer's over `y` -/
theorem mac_sent_received {sub : UInt8} {sets : List (UInt8 × Bytes)} {d : EapAkaPrime}
    (hc : Carries sub sets d) (hb : ∀ x ∈ sets, Bounded x.1 x.2) (code identifier : UInt8) :
    ∃ x, ∀ C : Crypto, C.Lawful → ∀ key, ∃ b y,
      (EAP.calcEapAkaPrimeAtMAC C key (akaPacket code identifier d)).1 =
        .ok ((C.hmac .sha256 key x).take 16) ∧
      (akaPacket code identifier (runAka C d [.calcMac code identifier key,
        .setAttr atMAC ((C.hmac .sha256 key x).take 16)])).marshal = .ok b ∧
      (∀ sp, ∃ e, EAP.unmarshal EAP.zero ⟨b, sp⟩ = .ok e ∧
        (EAP.calcEapAkaPrimeAtMAC C key e).1 = .ok ((C.hmac .sha256 key y).take 16)) ∧
      (y = x ↔ ∀ t v, lastSet sets t = some v → ¬ PadsValue t v) := by
  -- the text does not depend on the MAC, so any MAC gives it
  have hzeros : (List.replicate 16 (0 : UInt8)).length = 16 := List.length_replicate
  obtain ⟨x, hx⟩ : ∃ x, (akaPacket code identifier (EapAkaPrime.initMAC d).2).marshal = .ok x := by
    obtain ⟨_, _, _, _, _, hx⟩ := sent_wire hc hb (Crypto.ofTable [] [] []) code identifier []
      hzeros
    exact ⟨_, hx⟩
  refine ⟨x, fun C hC key => ?_⟩
  have hmac : ((C.hmac .sha256 key x).take 16).length = 16 := by
    rw [List.length_take, hC.hmac_length]
    rfl
  obtain ⟨pre, post, m, hw, hiff, hcov⟩ := sent_wire hc hb C code identifier key hmac
  refine ⟨_, akaOctets code identifier sub 0 0 ((putAll EapAkaPrimeAttr.attrType []
    ((pre ++ m.zeroed :: post).map WireAttr.attr)).flatMap EapAkaPrimeAttr.octets),
    calcMac_text hC key hx, hw.sent code identifier, fun sp => ?_, ?_⟩
  · obtain ⟨e, he, hcalc⟩ := hw.received code identifier sp
    exact ⟨e, he, hcalc C hC key⟩
  · rw [← Outcome.ok.inj (hcov.symm.trans hx), akaOctets_inj, hw.same_iff, hiff]

/-- **The peer finds the MAC that was sent**, for every key and every HMAC, iff the setters put no
padding behind a value.  The sender sets attributes, computes the MAC, installs it and encodes the
packet; the peer decodes it and computes the MAC of what it has read. -/
theorem mac_verifies_iff {sub : UInt8} {sets : List (UInt8 × Bytes)} {d : EapAkaPrime}
    (h : EapAkaPrime.setAttrs sets (newEapAkaPrime sub) = (.ok (), d))
    (hb : ∀ x ∈ sets, Bounded x.1 x.2) (code identifier : UInt8) :
    (∀ C : Crypto, C.Lawful → ∀ key, ∃ mac b,
      (EAP.calcEapAkaPrimeAtMAC C key (akaPacket code identifier d)).1 = .ok mac ∧
      (akaPacket code identifier
        (runAka C d [.calcMac code identifier key, .setAttr atMAC mac])).marshal = .ok b ∧
      ∀ sp, ∃ e, EAP.unmarshal EAP.zero ⟨b, sp⟩ = .ok e ∧
        (EAP.calcEapAkaPrimeAtMAC C key e).1 = .ok mac) ↔
    ∀ t v, lastSet sets t = some v → ¬ PadsValue t v := by
  have hc : Carries sub sets d := carries_setAttrs (carries_new sub) h
  obtain ⟨x, hx⟩ := mac_sent_received hc hb code identifier
  constructor
  · intro hall
    have hC := markCrypto_lawful x
    obtain ⟨b, y, hcalc, hsent, hpeer, hiff⟩ := hx (markCrypto x) hC []
    obtain ⟨mac, b', hmac, hb', hread⟩ := hall (markCrypto x) hC []
    obtain rfl := Outcome.ok.inj (hcalc.symm.trans hmac)
    obtain rfl := Outcome.ok.inj (hsent.symm.trans hb')
    obtain ⟨e, he, hey⟩ := hpeer []
    obtain ⟨e', he', hex⟩ := hread []
    obtain rfl := Outcome.ok.inj (he.symm.trans he')
    exact hiff.mp (eq_of_markCrypto (Outcome.ok.inj (hey.symm.trans hex)))
  · intro hpads C hC key
    obtain ⟨b, y, hcalc, hsent, hpeer, hiff⟩ := hx C hC key
    obtain rfl := hiff.mpr hpads
    exact ⟨_, b, hcalc, hsent, hpeer⟩

/-- a challenge for the network of the given name -/
def networkSets (name : Bytes) : List (UInt8 × Bytes) :=
  [(atRAND, List.replicate 16 0x5a), (atAUTN, List.replicate 16 0xa5), (atKDF, [0, 1]),
    (atKDFINPUT, name)]

/-- a name of four octets is verified, one of five is not -/
theorem mac_verifies_network :
    (∀ C : Crypto, C.Lawful → ∀ key, ∃ mac b,
      (EAP.calcEapAkaPrimeAtMAC C key (akaPacket 1 7
        (EapAkaPrime.setAttrs (networkSets [87, 76, 65, 78]) (newEapAkaPrime 1)).2)).1 = .ok mac ∧
      (akaPacket 1 7 (runAka C
        (EapAkaPrime.setAttrs (networkSets [87, 76, 65, 78]) (newEapAkaPrime 1)).2
        [.calcMac 1 7 key, .setAttr atMAC mac])).marshal = .ok b ∧
      ∀ sp, ∃ e, EAP.unmarshal EAP.zero ⟨b, sp⟩ = .ok e ∧
        (EAP.calcEapAkaPrimeAtMAC C key e).1 = .ok mac) ∧
    ¬ ∀ C : Crypto, C.Lawful → ∀ key, ∃ mac b,
      (EAP.calcEapAkaPrimeAtMAC C key (akaPacket 1 7
        (EapAkaPrime.setAttrs (networkSets [87, 76, 65, 78, 49]) (newEapAkaPrime 1)).2)).1 =
          .ok mac ∧
      (akaPacket 1 7 (runAka C
        (EapAkaPrime.setAttrs (networkSets [87, 76, 65, 78, 49]) (newEapAkaPrime 1)).2
        [.calcMac 1 7 key, .setAttr atMAC mac])).marshal = .ok b ∧
      ∀ sp, ∃ e, EAP.unmarshal EAP.zero ⟨b, sp⟩ = .ok e ∧
        (EAP.calcEapAkaPrimeAtMAC C key e).1 = .ok mac := by
  have hset : ∀ name, EapAkaPrime.setAttrs (networkSets name) (newEapAkaPrime 1) =
      (.ok (), (EapAkaPrime.setAttrs (networkSets name) (newEapAkaPrime 1)).2) := fun _ => rfl
  refine ⟨(mac_verifies_iff (hset [87, 76, 65, 78]) ?_ 1 7).mpr ?_, fun hall => ?_⟩
  · unfold Bounded
    decide
  · intro t v hv hp
    have hall : ∀ x ∈ networkSets [87, 76, 65, 78], ¬ PadsValue x.1 x.2 := by
      unfold PadsValue
      decide
    exact hall _ (mem_of_lastSet hv) hp
  · refine (mac_verifies_iff (hset [87, 76, 65, 78, 49]) ?_ 1 7).mp hall atKDFINPUT
      [87, 76, 65, 78, 49] (by decide) ⟨.inr rfl, by decide⟩
    unfold Bounded
    decide

end Ike

import IKEv2.Eap.AkaMac
import IKEv2.Message.Kept

/-!
# Which EAP packets come back

An AKA' packet is written from the attributes that the decoder stored.  Two things are not written
as they were read: padding is dropped, and an attribute of a type without a case of its own, read as
two octets, is written as four.  The two extra octets are zeros and are read as one more attribute.

* `rereads_unpadded_iff`   without padding the attributes come back iff that extra attribute is
                           already there when it is first read;
* `unpadded_of_rereads`    padding does not come back where every type has a case;
* `EapKept`                the condition on the octets of a packet;
* `EAP.returns_of_kept`, `EAP.kept_of_returns`   it is sufficient, and necessary unless a packet has
                           both padding and an attribute without a case.
-/

set_option linter.unusedVariables false

namespace Ike
open GoLang

/-! ## attributes as they are written -/

/-- the attribute that is read from two zero octets -/
def zeroAttr : WireAttr := ⟨0, 0, [], [], []⟩

namespace WireAttr

/-- the decoder has no case for the type -/
def unhandled (w : WireAttr) : Bool := attrKind w.type = .unhandled

/-- the number of octets that are written for an attribute without padding -/
def writtenSize (w : WireAttr) : Nat := if w.unhandled then 4 else w.octets.length

/-- the decoder does not keep the two octets behind type and length of these attributes -/
def norm (w : WireAttr) : WireAttr :=
  { w with field := if attrKind w.type = .value16 ∨ attrKind w.type = .checkcode then [0, 0]
                    else w.field }

theorem unhandled_eq_true {w : WireAttr} : w.unhandled = true ↔ attrKind w.type = .unhandled :=
  decide_eq_true_iff

theorem norm_ok {w : WireAttr} (h : w.Ok) : w.norm.Ok := by
  obtain ⟨t, len, f, v, p⟩ := w
  unfold Ok Padded actualLen fieldNum at h ⊢
  unfold norm
  simp only at h ⊢
  cases hk : attrKind t with
  | value16 => rw [hk] at h; simpa using h.imp_right fun h => h.2
  | checkcode => rw [hk] at h; simpa using h.2
  | kdfInput => rw [hk] at h; simpa using h
  | res => rw [hk] at h; simpa using h
  | code => rw [hk] at h; simpa using h
  | auts => rw [hk] at h; simpa using h
  | unhandled => rw [hk] at h; simpa using h

theorem norm_attr (w : WireAttr) : w.norm.attr = w.attr := by
  obtain ⟨t, len, f, v, p⟩ := w
  unfold attr fieldNum norm
  simp only
  cases hk : attrKind t <;> simp

/-- without padding, an attribute whose type has a case is written like its normal form -/
theorem octets_handled {w : WireAttr} (hw : w.Ok) (hh : ¬ w.unhandled = true) (hp : w.padding = []) :
    w.attr.octets = w.norm.octets := by
  have hk : attrKind w.norm.type ≠ .unhandled := fun h => hh (unhandled_eq_true.mpr h)
  rw [← norm_attr w, octets_attr_iff (norm_ok hw) hk]
  refine ⟨hp, fun h => ?_⟩
  exact if_pos h

/-- an attribute whose type has no case is written with two zero octets behind it -/
theorem octets_unhandled {w : WireAttr} (hw : w.Ok) (hu : w.unhandled = true) :
    w.attr.octets = w.octets ++ zeroAttr.octets := by
  obtain ⟨t, len, f, v, p⟩ := w
  have hk : attrKind t = .unhandled := unhandled_eq_true.mp hu
  have ht : t ≠ atAUTS := by
    intro h
    rw [attrKind_auts.mpr h] at hk
    exact absurd hk (by simp)
  simp only [Ok, hk] at hw
  obtain ⟨rfl, rfl, rfl⟩ := hw
  simp only [attr, EapAkaPrimeAttr.octets, hk, ne_eq, ht, not_false_eq_true, if_true]
  rfl

theorem length_written {w : WireAttr} (hw : w.Ok) (hp : w.padding = []) :
    w.attr.octets.length = w.writtenSize := by
  unfold writtenSize
  by_cases hu : w.unhandled = true
  · obtain ⟨t, len, f, v, p⟩ := w
    have hs := hw
    rw [if_pos hu, octets_unhandled hw hu]
    simp only [Ok, unhandled_eq_true.mp hu] at hs
    obtain ⟨rfl, rfl, rfl⟩ := hs
    rfl
  · have h := length_octets_attr hw fun h => hu (unhandled_eq_true.mpr h)
    rw [if_neg hu, h, hp]
    rfl

/-- what is kept of an attribute says how much padding it had -/
theorem padding_of_attr {w w' : WireAttr} (hw : w.Ok) (hw' : w'.Ok) (h : w.attr = w'.attr) :
    w.padding.length = w'.padding.length := by
  have ht : w.type = w'.type := congrArg EapAkaPrimeAttr.attrType h
  have hl : w.length = w'.length := congrArg EapAkaPrimeAttr.length h
  have hr : w.attr.reserved = w'.attr.reserved := congrArg EapAkaPrimeAttr.reserved h
  unfold Ok at hw hw'
  simp only [attr] at hr
  rw [← ht] at hw' hr
  cases hk : attrKind w.type with
  | value16 => rw [hk] at hw hw'; rw [hw.2.2.2, hw'.2.2.2]
  | kdfInput =>
    simp only [hk] at hw hw' hr
    have ha : w.actualLen = w'.actualLen := by
      rw [actualLen, actualLen, ← ht, hk, if_neg (by simp), if_neg (by simp), hr]
    rw [hw.2.2, hw'.2.2, hl, ha]
  | res =>
    simp only [hk] at hw hw' hr
    have ha : w.actualLen = w'.actualLen := by
      rw [actualLen, actualLen, ← ht, hk, if_pos rfl, if_pos rfl, hr]
    rw [hw.2.2, hw'.2.2, hl, ha]
  | code => rw [hk] at hw hw'; rw [hw.2.2, hw'.2.2]
  | checkcode => rw [hk] at hw hw'; rw [hw.2.2, hw'.2.2]
  | auts => rw [hk] at hw hw'; rw [hw.2.2.2, hw'.2.2.2]
  | unhandled => rw [hk] at hw hw'; rw [hw.2.2, hw'.2.2]

theorem attr_eq_zero {w : WireAttr} (hw : w.Ok) : w.attr = zeroAttr.attr ↔ w = zeroAttr := by
  constructor
  · intro h
    obtain ⟨t, len, f, v, p⟩ := w
    have ht : t = 0 := congrArg EapAkaPrimeAttr.attrType h
    have hl : len = 0 := congrArg EapAkaPrimeAttr.length h
    subst ht hl
    obtain ⟨rfl, rfl, rfl⟩ : f = [] ∧ v = [] ∧ p = [] := hw
    rfl
  · intro h
    rw [h]

end WireAttr

/-! ## stored attributes that are read again -/

/-- the octets of the attributes are read, and stored as these attributes -/
def Rereads (l : List EapAkaPrimeAttr) : Prop :=
  ∃ (ws : List WireAttr) (tail : Bytes), (∀ w ∈ ws, w.Ok) ∧ tail.length ≤ 1 ∧
    l.flatMap EapAkaPrimeAttr.octets = ws.flatMap WireAttr.octets ++ tail ∧
    putAll EapAkaPrimeAttr.attrType [] (ws.map WireAttr.attr) = l

/-- octets are read as attributes in one way -/
theorem readings_agree {ws ws' : List WireAttr} {tail tail' : Bytes} (hw : ∀ w ∈ ws, w.Ok)
    (hw' : ∀ w ∈ ws', w.Ok) (ht : tail.length ≤ 1) (ht' : tail'.length ≤ 1)
    (h : ws.flatMap WireAttr.octets ++ tail = ws'.flatMap WireAttr.octets ++ tail') :
    putAll EapAkaPrimeAttr.attrType [] (ws.map WireAttr.attr) =
      putAll EapAkaPrimeAttr.attrType [] (ws'.map WireAttr.attr) := by
  have h1 := (EapAkaPrime.unmarshal_iff (e := EapAkaPrime.zero)).mpr
    ⟨0, 0, 0, ws, tail, rfl, hw, ht, rfl⟩
  have h2 := (EapAkaPrime.unmarshal_iff (e := EapAkaPrime.zero)).mpr
    ⟨0, 0, 0, ws', tail', rfl, hw', ht', rfl⟩
  rw [h] at h1
  have hsame := (Prod.mk.inj (h1.symm.trans h2)).2
  have hl := holds_storeAll (holds_blank 0 (UInt16.ofNat ((0 : UInt8).toNat * 256 + (0 : UInt8).toNat)))
    (ws.map WireAttr.attr)
  rw [hsame] at hl
  exact hl.unique (holds_storeAll (holds_blank _ _) _)

theorem EapAkaPrime.unmarshal_written {e : EapAkaPrime} {l : List EapAkaPrimeAttr} (h : e.Holds l)
    {x : Bytes} (hx : e.marshal = .ok x) :
    EapAkaPrime.unmarshal x EapAkaPrime.zero = (.ok (), e) ↔ Rereads l := by
  obtain ⟨r1, r2, hr, hn⟩ := exists_octets_putUint16 e.reserved
  rw [h.marshal, hr] at hx
  injection hx with hx
  subst hx
  constructor
  · intro hu
    obtain ⟨sub, r1', r2', ws, tail, hd, hok, ht, he⟩ := EapAkaPrime.unmarshal_iff.mp hu
    simp only [List.cons_append, List.nil_append, List.cons.injEq] at hd
    refine ⟨ws, tail, hok, ht, hd.2.2.2.2, ?_⟩
    have hs := holds_storeAll (holds_blank sub (UInt16.ofNat (r1'.toNat * 256 + r2'.toNat)))
      (ws.map WireAttr.attr)
    rw [← he] at hs
    exact hs.unique h
  · intro hre
    obtain ⟨ws, tail, hok, ht, hd, hl⟩ := hre
    refine EapAkaPrime.unmarshal_iff.mpr ⟨e.subType, r1, r2, ws, tail, by rw [← hd]; rfl, hok, ht, ?_⟩
    have hs := holds_storeAll (holds_blank e.subType (UInt16.ofNat (r1.toNat * 256 + r2.toNat)))
      (ws.map WireAttr.attr)
    rw [hl] at hs
    have hhead := storeAll_header
      (EapAkaPrime.blank e.subType (UInt16.ofNat (r1.toNat * 256 + r2.toNat))) (ws.map WireAttr.attr)
    refine h.ext hs hhead.1.symm ?_
    rw [hhead.2, hn]
    exact (UInt16.ofNat_toNat ..).symm

/-- the wire form of what is written for attributes without padding -/
def rewritten (ws : List WireAttr) : List WireAttr :=
  ws.flatMap fun w => if w.unhandled then [w, zeroAttr] else [w.norm]

theorem ok_rewritten {ws : List WireAttr} (hw : ∀ w ∈ ws, w.Ok) : ∀ w ∈ rewritten ws, w.Ok := by
  intro x hx
  obtain ⟨w, hm, hx⟩ := List.mem_flatMap.mp hx
  by_cases hu : w.unhandled = true
  · rw [if_pos hu] at hx
    rcases List.mem_cons.mp hx with rfl | hx
    · exact hw x hm
    · rw [List.mem_singleton.mp hx]
      exact ⟨rfl, rfl, rfl⟩
  · rw [if_neg hu] at hx
    rw [List.mem_singleton.mp hx]
    exact WireAttr.norm_ok (hw w hm)

theorem octets_rewritten {ws : List WireAttr} (hw : ∀ w ∈ ws, w.Ok) (hp : ∀ w ∈ ws, w.padding = []) :
    (ws.map WireAttr.attr).flatMap EapAkaPrimeAttr.octets =
      (rewritten ws).flatMap WireAttr.octets := by
  rw [List.flatMap_map, rewritten, List.flatMap_assoc]
  refine List.flatMap_congr fun w hm => ?_
  by_cases hu : w.unhandled = true
  · rw [if_pos hu, WireAttr.octets_unhandled (hw w hm) hu]
    simp
  · rw [if_neg hu, WireAttr.octets_handled (hw w hm) hu (hp w hm)]
    simp

/-- an attribute whose type has no case, as it is stored -/
def EapAkaPrimeAttr.unhandled (a : EapAkaPrimeAttr) : Bool := attrKind a.attrType = .unhandled

theorem attr_rewritten (ws : List WireAttr) :
    (rewritten ws).map WireAttr.attr =
      trail EapAkaPrimeAttr.unhandled zeroAttr.attr (ws.map WireAttr.attr) := by
  rw [rewritten, trail, List.map_flatMap, List.flatMap_map]
  refine List.flatMap_congr fun w _ => ?_
  have hw : w.attr.unhandled = w.unhandled := rfl
  rw [hw]
  by_cases hu : w.unhandled = true
  · rw [if_pos hu, if_pos hu]
    rfl
  · rw [if_neg hu, if_neg hu, List.map_singleton, WireAttr.norm_attr]

/-- **Attributes without padding come back** iff the first of them without a case is followed by the
attribute of two zero octets, or is that attribute. -/
theorem rereads_unpadded_iff {ws : List WireAttr} (hw : ∀ w ∈ ws, w.Ok)
    (hp : ∀ w ∈ ws, w.padding = []) (hn : (ws.map WireAttr.type).Nodup) :
    Rereads (ws.map WireAttr.attr) ↔ MarkFirst WireAttr.unhandled zeroAttr ws := by
  have hkeys : (ws.map WireAttr.attr).map EapAkaPrimeAttr.attrType = ws.map WireAttr.type := by
    rw [List.map_map]
    rfl
  have hmark : ∀ a : EapAkaPrimeAttr, a.attrType = zeroAttr.attr.attrType → a.unhandled = true := by
    intro a ha
    rw [EapAkaPrimeAttr.unhandled, ha]
    rfl
  have hiff := putAll_trail_iff EapAkaPrimeAttr.attrType EapAkaPrimeAttr.unhandled zeroAttr.attr hmark
    (s := []) (l := ws.map WireAttr.attr) (by rw [List.nil_append, hkeys]; exact hn) (by simp)
  rw [List.nil_append] at hiff
  rw [← markFirst_map EapAkaPrimeAttr.unhandled zeroAttr.attr (q := WireAttr.unhandled)
    (f := WireAttr.attr) (fun _ => rfl) (fun w hm => WireAttr.attr_eq_zero (hw w hm)), ← hiff,
    ← attr_rewritten]
  constructor
  · intro hre
    obtain ⟨ws', tail, hok, ht, hd, hl⟩ := hre
    rw [octets_rewritten hw hp] at hd
    rw [← hl]
    have hnil : ([] : Bytes).length ≤ 1 := Nat.zero_le 1
    exact readings_agree (ok_rewritten hw) hok hnil ht (by rw [List.append_nil, hd])
  · intro hl
    exact ⟨rewritten ws, [], ok_rewritten hw, Nat.zero_le 1,
      by rw [List.append_nil, octets_rewritten hw hp], hl⟩

/-- padding does not come back where every type has a case -/
theorem unpadded_of_rereads {ws : List WireAttr} (hw : ∀ w ∈ ws, w.Ok)
    (hh : ∀ w ∈ ws, ¬ w.unhandled = true) (h : Rereads (ws.map WireAttr.attr)) :
    ∀ w ∈ ws, w.padding = [] := by
  obtain ⟨ws', tail, hok, ht, hd, hl⟩ := h
  have hh' : ∀ w ∈ ws', attrKind w.type ≠ .unhandled := by
    intro w hm hu
    have hkey : w.type ∈ (ws.map WireAttr.attr).map EapAkaPrimeAttr.attrType := by
      rw [← hl]
      refine (mem_map_putAll _).mpr (Or.inr ?_)
      exact List.mem_map.mpr ⟨w.attr, List.mem_map_of_mem hm, rfl⟩
    obtain ⟨a, ha, hta⟩ := List.mem_map.mp hkey
    obtain ⟨x, hx, rfl⟩ := List.mem_map.mp ha
    refine hh x hx (WireAttr.unhandled_eq_true.mpr ?_)
    rw [show x.type = w.type from hta]
    exact hu
  rw [← hl] at hd
  obtain ⟨_, hn, hexact⟩ := (reserialise_iff hok hh').mp hd
  have hall : putAll EapAkaPrimeAttr.attrType [] (ws'.map WireAttr.attr) = ws'.map WireAttr.attr := by
    refine putAll_of_nodup _ [] _ ?_
    rw [List.nil_append, List.map_map]
    exact hn
  rw [hall] at hl
  intro w hm
  have hmem : w.attr ∈ ws'.map WireAttr.attr := by
    rw [hl]
    exact List.mem_map_of_mem hm
  obtain ⟨w', hm', ha⟩ := List.mem_map.mp hmem
  have hlen := WireAttr.padding_of_attr (hok w' hm') (hw w hm) ha
  rw [(hexact w' hm').1] at hlen
  exact List.length_eq_zero_iff.mp hlen.symm

/-! ## packets -/

theorem EAP.marshal_some_iff {code identifier : UInt8} {d : EapTypeData} {data : Bytes} :
    EAP.marshal ⟨code, identifier, some d⟩ = .ok data ↔
      ∃ x, d.marshal = .ok x ∧ 4 + x.length ≤ 65535 ∧
        data = eapHeader code identifier (4 + x.length) ++ x := by
  show (d.marshal.wrapf _ >>= fun x => if 4 + x.length > 65535 then _ else _) = _ ↔ _
  rw [Outcome.bind_eq_ok]
  refine exists_congr fun x => ?_
  rw [Outcome.wrapf_eq_ok]
  refine and_congr_right fun _ => ?_
  by_cases hover : 4 + x.length > 65535
  · rw [if_pos hover]
    exact ⟨fun h => absurd h (fail_ne_ok _ _), fun h => absurd h.1 (by omega)⟩
  · rw [if_neg hover]
    constructor
    · intro h
      injection h with h
      exact ⟨by omega, h.symm⟩
    · intro h
      rw [h.2]
      rfl

/-- what is written of the data of a method, and whether it comes back in a packet -/
theorem EAP.returns_some_iff {code identifier : UInt8} {d : EapTypeData} {n : Nat} :
    Returns EAP.marshal (EAP.unmarshal EAP.zero) ⟨code, identifier, some d⟩ n ↔
      ∃ x, d.marshal = .ok x ∧ n = 4 + x.length ∧ n ≤ 65535 ∧ ∃ t rest sp, x = t :: rest ∧
        eapTypeSupported t = true ∧ EapTypeData.unmarshal t ⟨x, sp⟩ = .ok d := by
  have hpacket : ∀ (x sp : Bytes), 4 + x.length < 65536 →
      (EAP.unmarshal EAP.zero ⟨eapHeader code identifier (4 + x.length) ++ x, sp⟩ =
        .ok ⟨code, identifier, some d⟩ ↔
      ∃ t rest, x = t :: rest ∧ eapTypeSupported t = true ∧
        EapTypeData.unmarshal t ⟨x, sp⟩ = .ok d) := by
    intro x sp hlt
    obtain ⟨l1, l2, hl, hln⟩ := exists_octets_putUint16 (UInt16.ofNat (4 + x.length))
    rw [UInt16.toNat_ofNat_of_lt' hlt] at hln
    rw [eapHeader, hl]
    refine (EAP.unmarshal_cons _ _ code identifier l1 l2 x sp).trans ?_
    constructor
    · intro h
      rcases h.2 with ⟨_, _, _, he⟩ | ⟨t, rest, d', hx, hs, hd, he⟩
      · exact absurd (congrArg EAP.eapTypeData he) (by simp [EAP.zero])
      · injection he with _ _ he
        injection he with he
        subst he
        exact ⟨t, rest, hx, hs, hd⟩
    · intro h
      obtain ⟨t, rest, hx, hs, hd⟩ := h
      exact ⟨hln, Or.inr ⟨t, rest, d, hx, hs, hd, rfl⟩⟩
  constructor
  · intro hret
    obtain ⟨data, sp, hm, hlen, hu⟩ := hret
    obtain ⟨x, hx, hle, hdata⟩ := EAP.marshal_some_iff.mp hm
    have hn : n = 4 + x.length := by
      rw [← hlen, hdata, List.length_append]
      rfl
    rw [hdata] at hu
    obtain ⟨t, rest, ht⟩ := (hpacket x sp (by omega)).mp hu
    exact ⟨x, hx, hn, by omega, t, rest, sp, ht⟩
  · intro h
    obtain ⟨x, hx, hn, hle, t, rest, sp, ht⟩ := h
    refine ⟨_, sp, EAP.marshal_some_iff.mpr ⟨x, hx, by omega, rfl⟩, ?_, ?_⟩
    · rw [hn, List.length_append]
      rfl
    · exact (hpacket x sp (by omega)).mpr ⟨t, rest, ht⟩

/-- a method other than AKA' is written as it came, unless there is nothing behind its type -/
theorem EapTypeData.marshal_other {t : UInt8} {rest sp : Bytes} {d : EapTypeData}
    (hs : eapTypeSupported t = true) (ht : t ≠ eapTypeAkaPrime)
    (h : EapTypeData.unmarshal t ⟨t :: rest, sp⟩ = .ok d) (x : Bytes) :
    d.marshal = .ok x ↔ rest ≠ [] ∧ x = t :: rest := by
  simp only [eapTypeSupported, Bool.or_eq_true, decide_eq_true_eq] at hs
  rcases hs with ((((rfl | rfl) | rfl) | rfl) | rfl) | rfl
  · have h' : EapTypeData.identity <$> (EapIdentity.mk <$> typedUnmarshal _ _ [] _) = .ok d := h
    rw [typedUnmarshal_cons] at h'
    injection h' with h'
    subst h'
    exact typedMarshal_eq_ok
  · have h' : EapTypeData.notification <$> (EapNotification.mk <$> typedUnmarshal _ _ [] _) = .ok d := h
    rw [typedUnmarshal_cons] at h'
    injection h' with h'
    subst h'
    exact typedMarshal_eq_ok
  · have h' : EapTypeData.nak <$> (EapNak.mk <$> typedUnmarshal _ _ [] _) = .ok d := h
    rw [typedUnmarshal_cons] at h'
    injection h' with h'
    subst h'
    exact typedMarshal_eq_ok
  · obtain ⟨m, hm, rfl⟩ := Outcome.map_eq_ok.mp (show EapTypeData.md5 <$> _ = Outcome.ok d from h)
    obtain ⟨h1, h2, rfl⟩ := EapMD5.unmarshal_iff.mp hm
    show m.marshal = .ok x ↔ _
    rw [EapMD5.marshal_eq_ok, and_iff_right h1, and_iff_right h2, and_iff_right (by simp)]
  · exact absurd rfl ht
  · obtain ⟨m, hm, rfl⟩ :=
      Outcome.map_eq_ok.mp (show EapTypeData.expanded <$> _ = Outcome.ok d from h)
    have h0 : rest ≠ [] := by
      rintro rfl
      exact absurd hm (by simp [EapExpanded.unmarshal])
    show m.marshal = .ok x ↔ _
    rw [(EapExpanded.marshal_unmarshal hm).1]
    simp [h0, eq_comm]

/-- the stored attributes have no padding, and two zero octets behind them change nothing -/
def AkaKept (b : Bytes) (n : Nat) : Prop :=
  ∃ ws tail, AkaPacket b ws tail ∧ (∀ w ∈ putAll WireAttr.type [] ws, w.padding = []) ∧
    MarkFirst WireAttr.unhandled zeroAttr (putAll WireAttr.type [] ws) ∧
    n = 8 + ((putAll WireAttr.type [] ws).map WireAttr.writtenSize).sum

/-- an AKA' packet with padding and with an attribute without a case -/
def AkaMixed (b : Bytes) : Prop :=
  b[4]? = some eapTypeAkaPrime ∧ ∃ ws tail, AkaPacket b ws tail ∧
    (∃ w ∈ putAll WireAttr.type [] ws, w.padding ≠ []) ∧
    ∃ w ∈ putAll WireAttr.type [] ws, w.unhandled = true

/-- the packet comes back as `n` octets -/
def EapKept (b : Bytes) (n : Nat) : Prop :=
  if b.length ≤ 4 then n = 4
  else if b[4]? = some eapTypeAkaPrime then AkaKept b n
  else n = b.length ∧ b.length ≠ 5

theorem attrType_attr (w : WireAttr) : w.attr.attrType = w.type := rfl

/-- a received AKA' packet comes back iff its attributes do -/
theorem akaPrime_returns_iff {b sp tail : Bytes} {e : EAP} {ws : List WireAttr}
    (h : EAP.unmarshal EAP.zero ⟨b, sp⟩ = .ok e) (ht : b[4]? = some eapTypeAkaPrime)
    (hp : AkaPacket b ws tail) (n : Nat) :
    Returns EAP.marshal (EAP.unmarshal EAP.zero) e n ↔
      Rereads ((putAll WireAttr.type [] ws).map WireAttr.attr) ∧ n ≤ 65535 ∧
        n = 8 + (((putAll WireAttr.type [] ws).map WireAttr.attr).flatMap
          EapAkaPrimeAttr.octets).length := by
  obtain ⟨code, identifier, sub, r1, r2, _, _, rfl⟩ := akaPrime_received h ht hp
  obtain ⟨d, hd⟩ : ∃ d, d = (EapAkaPrime.blank sub (UInt16.ofNat (r1.toNat * 256 + r2.toNat))).storeAll
    (ws.map WireAttr.attr) := ⟨_, rfl⟩
  have hholds : d.Holds ((putAll WireAttr.type [] ws).map WireAttr.attr) := by
    rw [map_putAll WireAttr.type (f := WireAttr.attr) attrType_attr, hd]
    exact holds_storeAll (holds_blank _ _) _
  obtain ⟨x, hx, hxl, hxt⟩ : ∃ x, d.marshal = .ok x ∧ x.length = 4 +
      (((putAll WireAttr.type [] ws).map WireAttr.attr).flatMap EapAkaPrimeAttr.octets).length ∧
      ∃ rest, x = eapTypeAkaPrime :: rest := by
    refine ⟨_, hholds.marshal, ?_, _, rfl⟩
    simp only [List.length_append, length_putUint16, List.length_cons, List.length_nil]
  obtain ⟨rest, hrest⟩ := hxt
  have hm : (EapTypeData.akaPrime d).marshal = .ok x := hx
  rw [← hd, EAP.returns_some_iff, ← EapAkaPrime.unmarshal_written hholds hx]
  constructor
  · intro hr
    obtain ⟨x', hx', hn, hle, t, rest', sp', ht', _, hu⟩ := hr
    rw [hm] at hx'
    injection hx' with hx'
    subst hx'
    rw [hrest] at ht'
    injection ht' with ht' _
    rw [← ht'] at hu
    obtain ⟨e, he, hde⟩ := unmarshal_akaPrime.mp hu
    injection hde with hde
    subst hde
    exact ⟨he, hle, by omega⟩
  · intro hr
    obtain ⟨hu, hle, hn⟩ := hr
    exact ⟨x, hm, by omega, hle, eapTypeAkaPrime, rest, [], hrest, rfl,
      unmarshal_akaPrime.mpr ⟨d, hu, rfl⟩⟩

theorem ok_stored {b tail : Bytes} {ws : List WireAttr} (hp : AkaPacket b ws tail) :
    ∀ w ∈ putAll WireAttr.type [] ws, w.Ok := by
  intro w hm
  rcases mem_of_mem_putAll _ hm with hm | hm
  · exact absurd hm (by simp)
  · exact hp.ok w hm

theorem nodup_stored (ws : List WireAttr) : ((putAll WireAttr.type [] ws).map WireAttr.type).Nodup :=
  nodup_putAll WireAttr.type (l := []) List.nodup_nil ws

theorem length_stored {b tail : Bytes} {ws : List WireAttr} (hp : AkaPacket b ws tail)
    (hpad : ∀ w ∈ putAll WireAttr.type [] ws, w.padding = []) :
    (((putAll WireAttr.type [] ws).map WireAttr.attr).flatMap EapAkaPrimeAttr.octets).length =
      ((putAll WireAttr.type [] ws).map WireAttr.writtenSize).sum := by
  rw [List.length_flatMap, List.map_map]
  congr 1
  exact List.map_congr_left fun w hm => WireAttr.length_written (ok_stored hp w hm) (hpad w hm)

theorem akaPrime_returns_of_kept {b sp : Bytes} {e : EAP}
    (h : EAP.unmarshal EAP.zero ⟨b, sp⟩ = .ok e) (ht : b[4]? = some eapTypeAkaPrime) {n : Nat}
    (hk : AkaKept b n) (hn : n ≤ 65535) : Returns EAP.marshal (EAP.unmarshal EAP.zero) e n := by
  obtain ⟨ws, tail, hp, hpad, hmark, hsize⟩ := hk
  refine (akaPrime_returns_iff h ht hp n).mpr ⟨?_, hn, by rw [hsize, length_stored hp hpad]⟩
  exact (rereads_unpadded_iff (ok_stored hp) hpad (nodup_stored ws)).mpr hmark

theorem akaPrime_kept_of_returns {b sp : Bytes} {e : EAP}
    (h : EAP.unmarshal EAP.zero ⟨b, sp⟩ = .ok e) (ht : b[4]? = some eapTypeAkaPrime) {n : Nat}
    (hmix : ¬ AkaMixed b) (hr : Returns EAP.marshal (EAP.unmarshal EAP.zero) e n) : AkaKept b n := by
  obtain ⟨ws, tail, hp⟩ := exists_akaPacket h ht
  obtain ⟨hre, _, hsize⟩ := (akaPrime_returns_iff h ht hp n).mp hr
  have hpad : ∀ w ∈ putAll WireAttr.type [] ws, w.padding = [] := by
    by_cases hu : ∃ w ∈ putAll WireAttr.type [] ws, w.unhandled = true
    · intro w hm
      by_contra hne
      exact hmix ⟨ht, ws, tail, hp, ⟨w, hm, hne⟩, hu⟩
    · exact unpadded_of_rereads (ok_stored hp) (fun w hm hw => hu ⟨w, hm, hw⟩) hre
  refine ⟨ws, tail, hp, hpad, ?_, by rw [hsize, length_stored hp hpad]⟩
  exact (rereads_unpadded_iff (ok_stored hp) hpad (nodup_stored ws)).mp hre

/-- packets without AKA' data -/
theorem EAP.returns_iff_of_ne {b sp : Bytes} {e : EAP}
    (h : EAP.unmarshal EAP.zero ⟨b, sp⟩ = .ok e) (ht : b[4]? ≠ some eapTypeAkaPrime) {n : Nat} :
    Returns EAP.marshal (EAP.unmarshal EAP.zero) e n ↔
      if b.length ≤ 4 then n = 4 else n = b.length ∧ b.length ≠ 5 := by
  have hempty : ∀ (code identifier : UInt8), code ≠ eapCodeRequest → code ≠ eapCodeResponse →
      (Returns EAP.marshal (EAP.unmarshal EAP.zero) ⟨code, identifier, none⟩ n ↔ n = 4) := by
    intro code identifier h1 h2
    have hread : ∀ sp, EAP.unmarshal EAP.zero ⟨[code, identifier, 0, 4], sp⟩ =
        .ok ⟨code, identifier, none⟩ := fun sp =>
      (EAP.unmarshal_cons _ _ code identifier 0 4 [] sp).mpr ⟨rfl, Or.inl ⟨rfl, h1, h2, rfl⟩⟩
    rw [returns_of_ok (m := EAP.marshal) (d := [code, identifier, 0, 4]) rfl hread]
    exact and_iff_left rfl
  rcases EAP.unmarshal_iff.mp h with ⟨rfl, rfl⟩ | ⟨code, identifier, body, hb, hlt, hbody⟩
  · rw [if_pos (by simp)]
    exact hempty 0 0 (by decide) (by decide)
  have hlen : b.length = 4 + body.length := by
    rw [hb, List.length_append]
    rfl
  rcases hbody with ⟨rfl, h1, h2, rfl⟩ | ⟨t, rest, d, rfl, hs, hd, rfl⟩
  · rw [List.length_nil] at hlen
    rw [if_pos (by omega)]
    exact hempty code identifier h1 h2
  rw [List.length_cons] at hlen
  have hne : t ≠ eapTypeAkaPrime := by
    intro htt
    refine ht ?_
    rw [hb, htt]
    rfl
  rw [if_neg (by omega), EAP.returns_some_iff]
  constructor
  · intro hr
    obtain ⟨x, hx, hn, _⟩ := hr
    obtain ⟨h0, rfl⟩ := (EapTypeData.marshal_other hs hne hd x).mp hx
    have hpos : 0 < rest.length := List.length_pos_iff.mpr h0
    rw [List.length_cons] at hn
    omega
  · intro hr
    have h0 : rest ≠ [] := by
      rintro rfl
      exact hr.2 hlen
    refine ⟨t :: rest, (EapTypeData.marshal_other hs hne hd _).mpr ⟨h0, rfl⟩, ?_, ?_,
      t, rest, sp, rfl, hs, hd⟩
    · rw [hr.1, hlen, List.length_cons]
    · rw [List.length_cons] at hlt
      omega

theorem EAP.returns_of_kept {b sp : Bytes} {e : EAP}
    (h : EAP.unmarshal EAP.zero ⟨b, sp⟩ = .ok e) {n : Nat} (hk : EapKept b n) (hn : n ≤ 65535) :
    Returns EAP.marshal (EAP.unmarshal EAP.zero) e n := by
  unfold EapKept at hk
  by_cases ht : b[4]? = some eapTypeAkaPrime
  · have h4 : ¬ b.length ≤ 4 := by
      intro hle
      rw [List.getElem?_eq_none hle] at ht
      exact absurd ht (by simp)
    rw [if_neg h4, if_pos ht] at hk
    exact akaPrime_returns_of_kept h ht hk hn
  · rw [if_neg ht] at hk
    exact (EAP.returns_iff_of_ne h ht).mpr hk

theorem EAP.kept_of_returns {b sp : Bytes} {e : EAP}
    (h : EAP.unmarshal EAP.zero ⟨b, sp⟩ = .ok e) {n : Nat} (hmix : ¬ AkaMixed b)
    (hr : Returns EAP.marshal (EAP.unmarshal EAP.zero) e n) : EapKept b n := by
  unfold EapKept
  by_cases ht : b[4]? = some eapTypeAkaPrime
  · have h4 : ¬ b.length ≤ 4 := by
      intro hle
      rw [List.getElem?_eq_none hle] at ht
      exact absurd ht (by simp)
    rw [if_neg h4, if_pos ht]
    exact akaPrime_kept_of_returns h ht hmix hr
  · rw [if_neg ht]
    exact (EAP.returns_iff_of_ne h ht).mp hr

end Ike

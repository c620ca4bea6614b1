import IKEv2.GoLang.Crypto
import IKEv2.Eap.AkaPrime

/-!
# EAP packets (`eap/eap.go`)

Code, identifier, length and the data of one method.  `EAP.calcEapAkaPrimeAtMAC` sets AT_MAC to
zero in the packet it is called on and computes the MAC over the packet as it is encoded then.
-/

set_option linter.unusedVariables false

namespace Ike
open GoLang

def eapCodeRequest : UInt8 := 1
def eapCodeResponse : UInt8 := 2

/-- the implementations of the interface `EapTypeData` -/
inductive EapTypeData where
  | identity (d : EapIdentity)
  | notification (d : EapNotification)
  | nak (d : EapNak)
  | md5 (d : EapMD5)
  | akaPrime (d : EapAkaPrime)
  | expanded (d : EapExpanded)

def EapTypeData.type : EapTypeData → UInt8
  | .identity _ => eapTypeIdentity
  | .notification _ => eapTypeNotification
  | .nak _ => eapTypeNak
  | .md5 _ => eapTypeMD5
  | .akaPrime _ => eapTypeAkaPrime
  | .expanded _ => eapTypeExpanded

def EapTypeData.marshal : EapTypeData → Outcome Bytes
  | .identity d => d.marshal
  | .notification d => d.marshal
  | .nak d => d.marshal
  | .md5 d => d.marshal
  | .akaPrime d => d.marshal
  | .expanded d => d.marshal

structure EAP where
  code : UInt8
  identifier : UInt8
  eapTypeData : Option EapTypeData

/-- `new(EAP)` -/
def EAP.zero : EAP := { code := 0, identifier := 0, eapTypeData := none }

def EAP.marshal (e : EAP) : Outcome Bytes := do
  let eapTypeData ← match e.eapTypeData with
    | some d => d.marshal.wrapf "EAP: EAP type data marshal failed"
    | none => .ok []
  let dataLen := 4 + eapTypeData.length
  if dataLen > 65535 then fail s!"eap packet length overflow: {dataLen}"
  else pure ([e.code, e.identifier] ++ putUint16 (UInt16.ofNat dataLen) ++ eapTypeData)

/-- the switch over the EAP types: a new object of the method, filled from `b` -/
def EapTypeData.unmarshal (eapType : UInt8) (b : Slice UInt8) : Outcome EapTypeData :=
  if eapType = eapTypeIdentity then .identity <$> EapIdentity.unmarshal ⟨[]⟩ b
  else if eapType = eapTypeNotification then .notification <$> EapNotification.unmarshal ⟨[]⟩ b
  else if eapType = eapTypeNak then .nak <$> EapNak.unmarshal ⟨[]⟩ b
  else if eapType = eapTypeMD5 then .md5 <$> EapMD5.unmarshal b
  else if eapType = eapTypeAkaPrime then
    match EapAkaPrime.unmarshal b.data EapAkaPrime.zero with
    | (r, d) => (fun _ => .akaPrime d) <$> r
  else .expanded <$> EapExpanded.unmarshal ⟨0, 0, []⟩ b

/-- the EAP types that have a case in the switch -/
def eapTypeSupported (t : UInt8) : Bool :=
  t = eapTypeIdentity || t = eapTypeNotification || t = eapTypeNak || t = eapTypeMD5 ||
    t = eapTypeAkaPrime || t = eapTypeExpanded

def EAP.unmarshal (e : EAP) (b : Slice UInt8) : Outcome EAP :=
  if b.len > 0 then
    if b.len < 4 then fail "EAP: No sufficient bytes to decode next EAP payload"
    else do
      let l ← b.slice 2 4
      let eapPayloadLength ← uint16 l.data
      if eapPayloadLength < 4 then
        fail "EAP: Payload length specified in the header is too small for EAP"
      else if b.len ≠ eapPayloadLength.toNat then
        fail "EAP: Received payload length not matches the length specified in header"
      else do
        let code ← b.index 0
        let identifier ← b.index 1
        if (code = eapCodeRequest ∨ code = eapCodeResponse) ∧ eapPayloadLength < 5 then
          fail "EAP payload too short for Request/Response: length"
        else if eapPayloadLength = 4 then
          pure { e with code := code, identifier := identifier }
        else do
          let eapType ← b.index 4
          if ¬ eapTypeSupported eapType then
            fail s!"EAP: EAP type[{eapType.toNat}] is not supported"
          else do
            let r ← b.sliceFrom 4
            let d ← (EapTypeData.unmarshal eapType r).wrapf "EAP: EAP type data unamrshal failed"
            pure { code := code, identifier := identifier, eapTypeData := some d }
  else pure e

/-- `key` is K_aut -/
def EAP.calcEapAkaPrimeAtMAC (C : Crypto) (key : Bytes) : Proc EAP Bytes := fun e =>
  match e.eapTypeData with
  | none => (.panic .nilDereference, e)
  | some (.akaPrime d) =>
    match EapAkaPrime.initMAC d with
    | (r, d') =>
      let e' := { e with eapTypeData := some (.akaPrime d') }
      ((do
        let _ ← r.wrapf "EAP init EAP-AKA' AT_MAC failed"
        let eapBytes ← e'.marshal.wrapf "EAP marshal failed"
        let sum ← (Slice.ofList (C.hmac .sha256 key eapBytes)).sliceTo 16
        pure sum.data), e')
  | some d => (fail s!"Expected EAP-AKA' type, but got {eapTypeString d.type}", e)

theorem EapTypeData.unmarshal_spare {t : UInt8} {l sp : Bytes} (sp' : Bytes) {d : EapTypeData}
    (hs : eapTypeSupported t = true) (h : EapTypeData.unmarshal t ⟨t :: l, sp⟩ = .ok d) :
    EapTypeData.unmarshal t ⟨t :: l, sp'⟩ = .ok d := by
  have htyped : ∀ n t l, typedUnmarshal n t [] ⟨t :: l, sp⟩ = typedUnmarshal n t [] ⟨t :: l, sp'⟩ := by
    intro n t l
    rw [typedUnmarshal_cons, typedUnmarshal_cons]
  simp only [eapTypeSupported, Bool.or_eq_true, decide_eq_true_eq] at hs
  rcases hs with ((((rfl | rfl) | rfl) | rfl) | rfl) | rfl
  · rw [← h]
    show EapTypeData.identity <$> (EapIdentity.mk <$> _) = EapTypeData.identity <$> (_ <$> _)
    rw [htyped]
  · rw [← h]
    show EapTypeData.notification <$> (EapNotification.mk <$> _) = _ <$> (_ <$> _)
    rw [htyped]
  · rw [← h]
    show EapTypeData.nak <$> (EapNak.mk <$> _) = EapTypeData.nak <$> (_ <$> _)
    rw [htyped]
  · obtain ⟨m, hm, rfl⟩ := Outcome.map_eq_ok.mp (show EapTypeData.md5 <$> _ = Outcome.ok d from h)
    exact Outcome.map_eq_ok.mpr ⟨m, EapMD5.unmarshal_iff.mpr (EapMD5.unmarshal_iff.mp hm), rfl⟩
  · exact h
  · obtain ⟨m, hm, rfl⟩ :=
      Outcome.map_eq_ok.mp (show EapTypeData.expanded <$> _ = Outcome.ok d from h)
    exact Outcome.map_eq_ok.mpr ⟨m, (EapExpanded.marshal_unmarshal hm).2 sp', rfl⟩

/-! ## accepted packets -/

def eapHeader (code identifier : UInt8) (length : Nat) : Bytes :=
  code :: identifier :: putUint16 (UInt16.ofNat length)

/-- what follows the header: nothing, in a packet that is no request and no response, or the data of
a supported method -/
def EAP.Body (e : EAP) (code identifier : UInt8) (body sp : Bytes) (e' : EAP) : Prop :=
  (body = [] ∧ code ≠ eapCodeRequest ∧ code ≠ eapCodeResponse ∧
    e' = { e with code := code, identifier := identifier }) ∨
  ∃ t rest d, body = t :: rest ∧ eapTypeSupported t = true ∧
    EapTypeData.unmarshal t ⟨body, sp⟩ = .ok d ∧ e' = ⟨code, identifier, some d⟩

theorem EAP.unmarshal_cons (e e' : EAP) (code identifier l1 l2 : UInt8) (body sp : Bytes) :
    e.unmarshal ⟨code :: identifier :: l1 :: l2 :: body, sp⟩ = .ok e' ↔
      l1.toNat * 256 + l2.toNat = 4 + body.length ∧ e.Body code identifier body sp e' := by
  have h1 : l1.toNat < 256 := l1.toNat_lt
  have h2 : l2.toNat < 256 := l2.toNat_lt
  obtain ⟨L, hL⟩ : ∃ L, l1.toNat * 256 + l2.toNat = L := ⟨_, rfl⟩
  have hn : (UInt16.ofNat L).toNat = L := UInt16.toNat_ofNat_of_lt' (show L < 65536 by omega)
  have hlt4 : UInt16.ofNat L < 4 ↔ L < 4 := by rw [UInt16.lt_iff_toNat_lt, hn]; rfl
  have hlt5 : UInt16.ofNat L < 5 ↔ L < 5 := by rw [UInt16.lt_iff_toNat_lt, hn]; rfl
  have heq4 : UInt16.ofNat L = 4 ↔ L = 4 := by rw [← UInt16.toNat_inj, hn]; rfl
  unfold EAP.unmarshal
  rw [if_pos (by simp), if_neg (by simp), Slice.slice_data _ (by omega) (by simp)]
  simp only [Outcome.ok_bind, List.take_succ_cons, List.take_zero, List.drop_succ_cons,
    List.drop_zero, uint16_pair, hL, hn, Slice.index_mk_succ, Slice.index_mk_zero, hlt4, hlt5, heq4,
    Slice.len_mk, List.length_cons]
  by_cases hlen : L = 4 + body.length
  · rw [if_neg (by omega), if_neg (by omega)]
    cases body with
    | nil =>
      have hL4 : L = 4 := hlen
      rw [if_pos hL4]
      by_cases hc : (code = eapCodeRequest ∨ code = eapCodeResponse) ∧ L < 5
      · rw [if_pos hc]
        constructor
        · intro h; exact absurd h (fail_ne_ok _ _)
        · rintro ⟨_, ⟨_, h1, h2, _⟩ | ⟨t, rest, d, h, _⟩⟩
          · rcases hc.1 with h | h
            · exact absurd h h1
            · exact absurd h h2
          · exact absurd h (by simp)
      · rw [if_neg hc]
        have hcode : ¬ (code = eapCodeRequest ∨ code = eapCodeResponse) := fun h => hc ⟨h, by omega⟩
        constructor
        · intro h
          injection h with h
          exact ⟨hlen, Or.inl ⟨rfl, fun h => hcode (Or.inl h), fun h => hcode (Or.inr h), h.symm⟩⟩
        · rintro ⟨_, ⟨_, _, _, rfl⟩ | ⟨t, rest, d, h, _⟩⟩
          · rfl
          · exact absurd h (by simp)
    | cons t rest =>
      have hL5 : 5 ≤ L := by rw [hlen, List.length_cons]; omega
      rw [if_neg (by omega), if_neg (by omega), Slice.index_mk_zero, Outcome.ok_bind]
      by_cases hs : eapTypeSupported t = true
      · rw [if_neg (not_not_intro hs), Slice.sliceFrom_data _ (by simp), Outcome.ok_bind]
        simp only [List.drop_succ_cons, List.drop_zero]
        rw [Outcome.bind_eq_ok]
        constructor
        · rintro ⟨d, hd, h⟩
          injection h with h
          exact ⟨hlen, Or.inr ⟨t, rest, d, rfl, hs, Outcome.wrapf_eq_ok.mp hd, h.symm⟩⟩
        · rintro ⟨_, ⟨h, _⟩ | ⟨t', rest', d, h, _, hd, rfl⟩⟩
          · exact absurd h (by simp)
          · injection h with h1 h2
            subst h1 h2
            exact ⟨d, Outcome.wrapf_eq_ok.mpr hd, rfl⟩
      · rw [if_pos hs]
        constructor
        · intro h; exact absurd h (fail_ne_ok _ _)
        · rintro ⟨_, ⟨h, _⟩ | ⟨t', rest', d, h, hs', _⟩⟩
          · exact absurd h (by simp)
          · injection h with h1 h2
            subst h1
            exact absurd hs' hs
  · constructor
    · intro h
      split at h
      · exact absurd h (fail_ne_ok _ _)
      · rw [if_pos (by omega)] at h
        exact absurd h (fail_ne_ok _ _)
    · intro h
      exact absurd h.1 hlen

/-- **Accepted packets**: nothing, or a header with the right length and a body. -/
theorem EAP.unmarshal_iff {e e' : EAP} {b sp : Bytes} :
    e.unmarshal ⟨b, sp⟩ = .ok e' ↔
      (b = [] ∧ e' = e) ∨
      ∃ code identifier body, b = eapHeader code identifier (4 + body.length) ++ body ∧
        4 + body.length < 65536 ∧ e.Body code identifier body sp e' := by
  rcases header_cases b with rfl | ⟨h0, h4⟩ | ⟨code, identifier, l1, l2, body, rfl⟩
  · constructor
    · intro h
      injection h with h
      exact Or.inl ⟨rfl, h.symm⟩
    · intro h
      rcases h with ⟨_, rfl⟩ | ⟨code, identifier, body, h, _⟩
      · rfl
      · exact absurd h (by simp [eapHeader])
  · have hfail : e.unmarshal ⟨b, sp⟩ =
        fail "EAP: No sufficient bytes to decode next EAP payload" := by
      rw [EAP.unmarshal,
        if_pos (show (⟨b, sp⟩ : Slice UInt8).len > 0 from List.length_pos_iff.mpr h0),
        if_pos (show (⟨b, sp⟩ : Slice UInt8).len < 4 from h4)]
    rw [hfail]
    refine iff_of_false (fail_ne_ok _ _) fun h => ?_
    rcases h with ⟨h, _⟩ | ⟨code, identifier, body, rfl, _⟩
    · exact h0 h
    · simp only [eapHeader, List.cons_append, List.length_cons, List.length_append,
        length_putUint16] at h4
      omega
  · rw [EAP.unmarshal_cons]
    have h1 : l1.toNat < 256 := l1.toNat_lt
    have h2 : l2.toNat < 256 := l2.toNat_lt
    constructor
    · rintro ⟨hL, hb⟩
      refine Or.inr ⟨code, identifier, body, ?_, by omega, hb⟩
      rw [eapHeader, ← hL, putUint16_ofOctets]
      rfl
    · rintro (⟨h, _⟩ | ⟨code', identifier', body', h, hlt, hb⟩)
      · exact absurd h (by simp)
      · obtain ⟨x, y, hxy, hn⟩ := exists_octets_putUint16 (UInt16.ofNat (4 + body'.length))
        rw [UInt16.toNat_ofNat_of_lt' hlt] at hn
        rw [eapHeader, hxy] at h
        simp only [List.cons_append, List.nil_append, List.cons.injEq] at h
        obtain ⟨rfl, rfl, rfl, rfl, rfl⟩ := h
        exact ⟨hn, hb⟩

theorem EAP.unmarshal_spare {e e' : EAP} {b sp : Bytes} (sp' : Bytes)
    (h : e.unmarshal ⟨b, sp⟩ = .ok e') : e.unmarshal ⟨b, sp'⟩ = .ok e' := by
  rcases EAP.unmarshal_iff.mp h with h0 | ⟨code, identifier, body, hb, hlt, hbody⟩
  · exact EAP.unmarshal_iff.mpr (Or.inl h0)
  · refine EAP.unmarshal_iff.mpr (Or.inr ⟨code, identifier, body, hb, hlt, ?_⟩)
    rcases hbody with h0 | ⟨t, rest, d, rfl, hs, hd, he⟩
    · exact Or.inl h0
    · exact Or.inr ⟨t, rest, d, rfl, hs, EapTypeData.unmarshal_spare sp' hs hd, he⟩

end Ike

import IKEv2.GoLang.NilFree
import IKEv2.Message.Container

/-!
# The decoders dereference no nil pointer

Whatever the octets are, a decoder may refuse them or run out of a slice, but it never follows a nil
pointer: the objects that it fills are its own.

* `IKEPayloadContainer.decode_nilFree`   the decoder of a list of payloads.
-/

set_option linter.unusedVariables false

namespace Ike
open GoLang

theorem SecurityAssociation.unmarshal_nilFree (sa : SecurityAssociation) (b : Slice UInt8) :
    NilFree (sa.unmarshal b) := by
  have ht : ∀ d l, NilFree (readTransform d l) := by
    intro d l
    simp [readTransform]
  have hp : ∀ d l, NilFree (readProposal d l) := by
    intro d l
    have hloop : ∀ s, NilFree (peelLoop transformRound s) :=
      nilFree_lenLoop fun acc d l => by simp [ht]
    simp [readProposal, hloop]
  have hloop : ∀ s, NilFree (peelLoop proposalRound s) :=
    nilFree_lenLoop fun acc d l => by simp [hp]
  simp [SecurityAssociation.unmarshal, hloop]

theorem taggedUnmarshal_nilFree (n : Nat) (t : String) (old : UInt8 × Bytes) (b : Slice UInt8) :
    NilFree (taggedUnmarshal n t old b) := by
  simp [taggedUnmarshal]

theorem Delete.unmarshal_nilFree (p : Delete) (b : Slice UInt8) : NilFree (p.unmarshal b) := by
  have hloop : ∀ c s, NilFree (Delete.spiLoop c s) := fun c =>
    nilFree_whileLoop fun s => by simp [Delete.spiRound]
  simp [Delete.unmarshal, hloop]

theorem tsUnmarshal_nilFree (old : List IndividualTrafficSelector) (b : Slice UInt8) :
    NilFree (tsUnmarshal old b) := by
  have hone : ∀ b, NilFree (selectorUnmarshal b) := by
    intro b
    simp [selectorUnmarshal, rangeUnmarshal]
  have hall : ∀ n b acc, NilFree (selectorsUnmarshal n b acc) := by
    intro n
    induction n with
    | zero => intro b acc; simp [selectorsUnmarshal]
    | succ n ih => intro b acc; simp [selectorsUnmarshal, hone, ih]
  simp [tsUnmarshal, hall]

theorem Configuration.unmarshal_nilFree (p : Configuration) (b : Slice UInt8) :
    NilFree (p.unmarshal b) := by
  have hloop : ∀ s, NilFree (peelLoop Configuration.attrRound s) :=
    nilFree_whileLoop fun s => by simp [Configuration.attrRound]
  simp [Configuration.unmarshal, hloop]

/-! ## EAP -/

theorem readAttr_nilFree (r : Bytes) : NilFree (readAttr r) := by
  have hpad : ∀ actual t l r, NilFree (readPadded actual t l r) := by
    intro actual t l r
    simp [readPadded, readReserved, readValue, readPadding]
  unfold readAttr
  split
  · rw [nilFree_map, readBody]
    split <;> simp [hpad, readReserved, readValue]
  · simp

theorem EapAkaPrime.unmarshal_nilFree (rawData : Bytes) (e : EapAkaPrime) :
    NilFree (EapAkaPrime.unmarshal rawData e).1 := by
  have hloop : ∀ n r (e : EapAkaPrime), NilFree (EapAkaPrime.attrLoop n r e).1 := by
    intro n
    induction n with
    | zero => intro r e; simp [EapAkaPrime.attrLoop, Proc.lift]
    | succ n ih =>
      intro r e
      rw [EapAkaPrime.attrLoop, Proc.fst_lift_bind, nilFree_bind]
      refine ⟨readAttr_nilFree r, fun o _ => ?_⟩
      match o with
      | none => exact nilFree_ok ()
      | some (a, r) => exact ih r _
  unfold EapAkaPrime.unmarshal
  split
  · split
    · exact nilFree_fail _
    · rw [Proc.modify_bind, Proc.fst_lift_bind, nilFree_bind]
      refine ⟨nilFree_uint16 _, fun v _ => ?_⟩
      rw [Proc.modify_bind]
      exact hloop _ _ _
  · exact nilFree_fail _

theorem EAP.unmarshal_nilFree (e : EAP) (b : Slice UInt8) : NilFree (e.unmarshal b) := by
  have hdata : ∀ t b, NilFree (EapTypeData.unmarshal t b) := by
    intro t b
    have haka := EapAkaPrime.unmarshal_nilFree b.data EapAkaPrime.zero
    unfold EapTypeData.unmarshal
    simp [EapIdentity.unmarshal, EapNotification.unmarshal, EapNak.unmarshal, typedUnmarshal,
      EapMD5.unmarshal, EapExpanded.unmarshal, haka]
  simp [EAP.unmarshal, hdata]

/-! ## payloads -/

theorem IKEPayload.unmarshal_nilFree (p : IKEPayload) (b : Slice UInt8) : NilFree (p.unmarshal b) := by
  cases p with
  | sa p => exact nilFree_map.mpr (p.unmarshal_nilFree b)
  | d p => exact nilFree_map.mpr (p.unmarshal_nilFree b)
  | cp p => exact nilFree_map.mpr (p.unmarshal_nilFree b)
  | eap p => exact nilFree_map.mpr (p.unmarshal_nilFree b)
  | tsi p => simp [unmarshal, TrafficSelectorInitiator.unmarshal, tsUnmarshal_nilFree]
  | tsr p => simp [unmarshal, TrafficSelectorResponder.unmarshal, tsUnmarshal_nilFree]
  | idi p => simp [unmarshal, IdentificationInitiator.unmarshal, taggedUnmarshal_nilFree]
  | idr p => simp [unmarshal, IdentificationResponder.unmarshal, taggedUnmarshal_nilFree]
  | cert p => simp [unmarshal, Certificate.unmarshal, taggedUnmarshal_nilFree]
  | certreq p => simp [unmarshal, CertificateRequest.unmarshal, taggedUnmarshal_nilFree]
  | auth p => simp [unmarshal, Authentication.unmarshal, taggedUnmarshal_nilFree]
  | ke p => simp [unmarshal, KeyExchange.unmarshal]
  | nonce p => simp [unmarshal, Nonce.unmarshal]
  | n p => simp [unmarshal, Notification.unmarshal]
  | v p => simp [unmarshal, VendorID.unmarshal]
  | sk p => simp [unmarshal, Encrypted.unmarshal]

/-- **No octets make the decoder of a list of payloads follow a nil pointer.** -/
theorem IKEPayloadContainer.decode_nilFree (ps : IKEPayloadContainer) (next : UInt8)
    (b : Slice UInt8) : NilFree (decode ps next b) := by
  have hloop : ∀ s, NilFree (peelLoop decodeRound s) := by
    refine nilFree_lenLoop fun acc d l => ?_
    rw [decodePayload, nilFree_bind]
    refine ⟨nilFree_index _ _, fun flags _ => ?_⟩
    cases IkePayloadType.ofCode acc.1 with
    | none => simp
    | some t => simp [IKEPayload.unmarshal_nilFree]
  simp [decode, hloop]

end Ike

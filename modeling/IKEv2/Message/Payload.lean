import IKEv2.Message.Simple
import IKEv2.Message.Delete
import IKEv2.Message.Configuration
import IKEv2.Message.TrafficSelector
import IKEv2.Message.Proposals
import IKEv2.Eap.Packet

/-!
# The payloads behind one interface (`IKEPayload`)

The sixteen implementations of `IKEPayload`, and the switch of the decoder that makes a new object
for a payload type.  The SK payload is the one whose new object is not empty: it gets the
next-payload octet of the record it stands in.

`IKEPayload.Survives p`: the decoder gives `p` back from what the encoder makes of it.  Then it does
so whatever lies behind the octets in memory (`Survives.unmarshal`).
-/

set_option linter.unusedVariables false

namespace Ike
open GoLang

inductive IKEPayload where
  | sa (p : SecurityAssociation)
  | ke (p : KeyExchange)
  | idi (p : IdentificationInitiator)
  | idr (p : IdentificationResponder)
  | cert (p : Certificate)
  | certreq (p : CertificateRequest)
  | auth (p : Authentication)
  | nonce (p : Nonce)
  | n (p : Notification)
  | d (p : Delete)
  | v (p : VendorID)
  | tsi (p : TrafficSelectorInitiator)
  | tsr (p : TrafficSelectorResponder)
  | sk (p : Encrypted)
  | cp (p : Configuration)
  | eap (p : EAP)

namespace IKEPayload

def type : IKEPayload → IkePayloadType
  | .sa _ => .SA
  | .ke _ => .KE
  | .idi _ => .IDi
  | .idr _ => .IDr
  | .cert _ => .CERT
  | .certreq _ => .CERTreq
  | .auth _ => .AUTH
  | .nonce _ => .NiNr
  | .n _ => .N
  | .d _ => .D
  | .v _ => .V
  | .tsi _ => .TSi
  | .tsr _ => .TSr
  | .sk _ => .SK
  | .cp _ => .CP
  | .eap _ => .EAP

def marshal : IKEPayload → Outcome Bytes
  | .sa p => p.marshal
  | .ke p => p.marshal
  | .idi p => p.marshal
  | .idr p => p.marshal
  | .cert p => p.marshal
  | .certreq p => p.marshal
  | .auth p => p.marshal
  | .nonce p => p.marshal
  | .n p => p.marshal
  | .d p => p.marshal
  | .v p => p.marshal
  | .tsi p => p.marshal
  | .tsr p => p.marshal
  | .sk p => p.marshal
  | .cp p => p.marshal
  | .eap p => p.marshal

/-- a new object of the type; `next` is the first octet of the record -/
def new (next : UInt8) : IkePayloadType → IKEPayload
  | .SA => .sa ⟨[]⟩
  | .KE => .ke ⟨0, []⟩
  | .IDi => .idi ⟨0, []⟩
  | .IDr => .idr ⟨0, []⟩
  | .CERT => .cert ⟨0, []⟩
  | .CERTreq => .certreq ⟨0, []⟩
  | .AUTH => .auth ⟨0, []⟩
  | .NiNr => .nonce ⟨[]⟩
  | .N => .n ⟨0, 0, [], []⟩
  | .D => .d ⟨0, 0, 0, []⟩
  | .V => .v ⟨[]⟩
  | .TSi => .tsi ⟨[]⟩
  | .TSr => .tsr ⟨[]⟩
  | .SK => .sk ⟨next, []⟩
  | .CP => .cp ⟨0, []⟩
  | .EAP => .eap EAP.zero

def unmarshal : IKEPayload → Slice UInt8 → Outcome IKEPayload
  | .sa p, b => .sa <$> p.unmarshal b
  | .ke p, b => .ke <$> p.unmarshal b
  | .idi p, b => .idi <$> p.unmarshal b
  | .idr p, b => .idr <$> p.unmarshal b
  | .cert p, b => .cert <$> p.unmarshal b
  | .certreq p, b => .certreq <$> p.unmarshal b
  | .auth p, b => .auth <$> p.unmarshal b
  | .nonce p, b => .nonce <$> p.unmarshal b
  | .n p, b => .n <$> p.unmarshal b
  | .d p, b => .d <$> p.unmarshal b
  | .v p, b => .v <$> p.unmarshal b
  | .tsi p, b => .tsi <$> p.unmarshal b
  | .tsr p, b => .tsr <$> p.unmarshal b
  | .sk p, b => .sk <$> p.unmarshal b
  | .cp p, b => .cp <$> p.unmarshal b
  | .eap p, b => .eap <$> p.unmarshal b

/-- the decoder fills an object of the type it was asked for -/
theorem type_of_unmarshal {next : UInt8} {t : IkePayloadType} {b : Slice UInt8} {p : IKEPayload}
    (h : (new next t).unmarshal b = .ok p) : p.type = t := by
  cases t <;> (obtain ⟨q, _, rfl⟩ := Outcome.map_eq_ok.mp h; rfl)

/-- the next-payload octet is kept in SK payloads, and nowhere else -/
theorem new_of_ne_sk (next next' : UInt8) {t : IkePayloadType} (h : t ≠ .SK) :
    new next t = new next' t := by
  cases t <;> first | rfl | exact absurd rfl h

theorem nextPayload_of_unmarshal {next : UInt8} {b : Slice UInt8} {p : IKEPayload}
    (h : (new next .SK).unmarshal b = .ok p) : p = .sk ⟨next, b.data⟩ := by
  injection h with h
  exact h.symm

/-! ## what lies behind the octets -/

/-- only the decoder of Delete payloads may look behind the octets it is given -/
theorem unmarshal_spare {next : UInt8} {t : IkePayloadType} {data sp : Bytes} (sp' : Bytes)
    {p : IKEPayload} (hD : t = .D → data.length % 4 = 0)
    (h : (new next t).unmarshal ⟨data, sp⟩ = .ok p) : (new next t).unmarshal ⟨data, sp'⟩ = .ok p := by
  cases t with
  | SA =>
    obtain ⟨q, hq, rfl⟩ := Outcome.map_eq_ok.mp h
    exact Outcome.map_eq_ok.mpr ⟨q, SecurityAssociation.unmarshal_spare sp' hq, rfl⟩
  | KE =>
    rw [← h]
    show IKEPayload.ke <$> _ = IKEPayload.ke <$> _
    rw [KeyExchange.unmarshal_eq, KeyExchange.unmarshal_eq]
  | IDi =>
    rw [← h]
    show IKEPayload.idi <$> (_ <$> _) = IKEPayload.idi <$> (_ <$> _)
    rw [taggedUnmarshal_spare]
  | IDr =>
    rw [← h]
    show IKEPayload.idr <$> (_ <$> _) = IKEPayload.idr <$> (_ <$> _)
    rw [taggedUnmarshal_spare]
  | CERT =>
    rw [← h]
    show IKEPayload.cert <$> (_ <$> _) = IKEPayload.cert <$> (_ <$> _)
    rw [taggedUnmarshal_spare]
  | CERTreq =>
    rw [← h]
    show IKEPayload.certreq <$> (_ <$> _) = IKEPayload.certreq <$> (_ <$> _)
    rw [taggedUnmarshal_spare]
  | AUTH =>
    rw [← h]
    show IKEPayload.auth <$> (_ <$> _) = IKEPayload.auth <$> (_ <$> _)
    rw [taggedUnmarshal_spare]
  | NiNr =>
    rw [← h]
    show IKEPayload.nonce <$> _ = IKEPayload.nonce <$> _
    rw [Nonce.unmarshal_eq, Nonce.unmarshal_eq]
  | N =>
    rw [← h]
    show IKEPayload.n <$> _ = IKEPayload.n <$> _
    rw [Notification.unmarshal_spare]
  | D =>
    obtain ⟨q, hq, rfl⟩ := Outcome.map_eq_ok.mp h
    exact Outcome.map_eq_ok.mpr ⟨q, Delete.unmarshal_spare (hD rfl) sp' hq, rfl⟩
  | V =>
    rw [← h]
    show IKEPayload.v <$> _ = IKEPayload.v <$> _
    rw [VendorID.unmarshal_eq, VendorID.unmarshal_eq]
  | TSi =>
    obtain ⟨q, hq, rfl⟩ := Outcome.map_eq_ok.mp h
    obtain ⟨tss, hts, rfl⟩ := Outcome.map_eq_ok.mp hq
    exact Outcome.map_eq_ok.mpr ⟨_, Outcome.map_eq_ok.mpr
      ⟨tss, tsUnmarshal_iff.mpr (tsUnmarshal_iff.mp hts), rfl⟩, rfl⟩
  | TSr =>
    obtain ⟨q, hq, rfl⟩ := Outcome.map_eq_ok.mp h
    obtain ⟨tss, hts, rfl⟩ := Outcome.map_eq_ok.mp hq
    exact Outcome.map_eq_ok.mpr ⟨_, Outcome.map_eq_ok.mpr
      ⟨tss, tsUnmarshal_iff.mpr (tsUnmarshal_iff.mp hts), rfl⟩, rfl⟩
  | SK => exact h
  | CP =>
    obtain ⟨q, hq, rfl⟩ := Outcome.map_eq_ok.mp h
    exact Outcome.map_eq_ok.mpr ⟨q, (Configuration.unmarshal_iff ..).mpr
      ((Configuration.unmarshal_iff ..).mp hq), rfl⟩
  | EAP =>
    obtain ⟨q, hq, rfl⟩ := Outcome.map_eq_ok.mp h
    exact Outcome.map_eq_ok.mpr ⟨q, EAP.unmarshal_spare sp' hq, rfl⟩

/-! ## payloads that survive their codec -/

/-- a new object that is filled with the octets of `p` is `p` -/
def Survives (p : IKEPayload) : Prop :=
  ∃ data next sp, p.marshal = .ok data ∧ (new next p.type).unmarshal ⟨data, sp⟩ = .ok p

/-- the octet that the decoder has to find in the record of `p` -/
def Carries (p : IKEPayload) (next : UInt8) : Prop := ∀ e, p = .sk e → next = e.nextPayload

theorem carries_of_ne_sk {p : IKEPayload} (h : p.type ≠ .SK) (next : UInt8) : p.Carries next := by
  rintro e rfl
  exact absurd rfl h

theorem Survives.unmarshal {p : IKEPayload} (h : p.Survives) :
    ∃ data, p.marshal = .ok data ∧
      ∀ next sp, p.Carries next → (new next p.type).unmarshal ⟨data, sp⟩ = .ok p := by
  obtain ⟨data, next, sp, hm, hu⟩ := h
  refine ⟨data, hm, ?_⟩
  intro next' sp' hc
  have hn : new next' p.type = new next p.type := by
    by_cases hsk : p.type = .SK
    · rw [hsk] at hu ⊢
      have hp := nextPayload_of_unmarshal hu
      rw [hc _ hp]
    · exact new_of_ne_sk next' next hsk
  rw [hn]
  refine unmarshal_spare sp' ?_ hu
  intro hd
  cases p with
  | d q =>
    obtain ⟨q', hq, he⟩ := Outcome.map_eq_ok.mp hu
    injection he with he
    subst he
    exact Delete.length_of_survives hm hq
  | _ => exact absurd hd (by simp [type])

end IKEPayload

end Ike

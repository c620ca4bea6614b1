import IKEv2.Eap.Reread
import IKEv2.Message.Framing
import IKEv2.Message.KeptProposals

/-!
# Which accepted messages are written and read again

A message that was decoded is encoded, and what was written is decoded once more.  `Reencodes b`
says for which octets `b` this gives the same message: every payload body comes back (`BodyKept`),
the sizes fit their fields, and no unknown record stands between an SK payload and a later payload.

* `IKEPayload.comesBack_iff`, `comesBack_of_kept`, `kept_of_comesBack`   one payload;
* `IKEPayloadContainer.reads_back`   what decoding the written records says about the payloads;
* `linked_iff`                       SK payloads and the records behind them;
* `decoded_stable`                   the message.
-/

set_option linter.unusedVariables false

namespace Ike
open GoLang

/-! ## one payload -/

/-- the body of a payload of this type comes back as `n` octets -/
def BodyKept : IkePayloadType → Bytes → Nat → Prop
  | .SA, body, n => ProposalsKept body n
  | .NiNr, body, n => n = body.length
  | .V, body, n => n = body.length
  | .N, body, n => n = if body = [] then 4 else body.length
  | .D, body, n => DeleteKept body n
  | .TSi, body, n => SelectorsKept body n
  | .TSr, body, n => SelectorsKept body n
  | .CP, body, n => AttributesKept body n
  | .EAP, body, n => EapKept body n
  -- KE, IDi, IDr, CERT, CERTreq, AUTH and SK
  | _, body, n => body ≠ [] ∧ n = body.length

namespace IKEPayload

/-- a new object that is filled with the octets of `p` is `p`, and there are `n` of them -/
def ComesBack (p : IKEPayload) (n : Nat) : Prop :=
  ∃ data next sp, p.marshal = .ok data ∧ data.length = n ∧
    (new next p.type).unmarshal ⟨data, sp⟩ = .ok p

theorem ComesBack.survives {p : IKEPayload} {n : Nat} (h : p.ComesBack n) : p.Survives := by
  obtain ⟨data, next, sp, hm, _, hu⟩ := h
  exact ⟨data, next, sp, hm, hu⟩

/-- the payloads of one constructor: `hr` is what is known of the codec inside -/
theorem comesBack_map {α : Type} (f : α → IKEPayload) {m : α → Outcome Bytes}
    {u : Slice UInt8 → Outcome α} {x : α} {n : Nat} {P : Prop} (hr : Returns m u x n ↔ P)
    (hf : ∀ y, f y = f x → y = x) (hm : (f x).marshal = m x)
    (hu : ∀ next b, (new next (f x).type).unmarshal b = f <$> u b) : (f x).ComesBack n ↔ P := by
  rw [← hr]
  constructor
  · intro h
    obtain ⟨data, next, sp, hd, hl, hr⟩ := h
    rw [hu] at hr
    obtain ⟨y, hy, he⟩ := Outcome.map_eq_ok.mp hr
    rw [hf y he] at hy
    exact ⟨data, sp, by rw [← hm]; exact hd, hl, hy⟩
  · intro h
    obtain ⟨data, sp, hd, hl, hr⟩ := h
    exact ⟨data, 0, sp, by rw [hm]; exact hd, hl, by rw [hu, hr]; rfl⟩

theorem comesBack_sk {next : UInt8} {body sp : Bytes} {e : Encrypted}
    (h : Encrypted.unmarshal ⟨next, []⟩ ⟨body, sp⟩ = .ok e) (n : Nat) :
    (sk e).ComesBack n ↔ body ≠ [] ∧ n = body.length := by
  have he : e.nextPayload = next := by
    injection h with h
    rw [← h]
  rw [← Encrypted.returns_iff h he n]
  constructor
  · intro hc
    obtain ⟨data, next', sp', hd, hl, hr⟩ := hc
    obtain ⟨e', he', hee⟩ := Outcome.map_eq_ok.mp hr
    injection hee with hee
    subst hee
    have hn : next' = e'.nextPayload := by
      injection he' with he'
      rw [← he']
    subst hn
    exact ⟨data, sp', hd, hl, he'⟩
  · intro hret
    obtain ⟨data, sp', hd, hl, hr⟩ := hret
    exact ⟨data, e.nextPayload, sp', hd, hl, Outcome.map_eq_ok.mpr ⟨e, hr, rfl⟩⟩

/-- for every type but EAP the condition on the body is exact -/
theorem comesBack_iff {next : UInt8} {t : IkePayloadType} {body sp : Bytes} {p : IKEPayload}
    (h : (new next t).unmarshal ⟨body, sp⟩ = .ok p) (ht : t ≠ .EAP) (n : Nat) :
    p.ComesBack n ↔ BodyKept t body n := by
  cases t with
  | SA =>
    obtain ⟨x, hx, rfl⟩ := Outcome.map_eq_ok.mp h
    exact comesBack_map .sa (SecurityAssociation.returns_iff hx n) (fun y hy => by injection hy) rfl
      fun _ _ => rfl
  | KE =>
    obtain ⟨x, hx, rfl⟩ := Outcome.map_eq_ok.mp h
    exact comesBack_map .ke (KeyExchange.returns_iff hx n) (fun y hy => by injection hy) rfl
      fun _ _ => rfl
  | IDi =>
    obtain ⟨x, hx, rfl⟩ := Outcome.map_eq_ok.mp h
    obtain ⟨r, hr, rfl⟩ := Outcome.map_eq_ok.mp hx
    exact comesBack_map (fun r : UInt8 × Bytes => .idi ⟨r.1, r.2⟩)
      (tagged_returns_iff (by omega) hr n)
      (fun y hy => by injection hy with hy; injection hy with h1 h2; exact Prod.ext h1 h2) rfl
      fun _ _ => Functor.map_map _ _ _
  | IDr =>
    obtain ⟨x, hx, rfl⟩ := Outcome.map_eq_ok.mp h
    obtain ⟨r, hr, rfl⟩ := Outcome.map_eq_ok.mp hx
    exact comesBack_map (fun r : UInt8 × Bytes => .idr ⟨r.1, r.2⟩)
      (tagged_returns_iff (by omega) hr n)
      (fun y hy => by injection hy with hy; injection hy with h1 h2; exact Prod.ext h1 h2) rfl
      fun _ _ => Functor.map_map _ _ _
  | CERT =>
    obtain ⟨x, hx, rfl⟩ := Outcome.map_eq_ok.mp h
    obtain ⟨r, hr, rfl⟩ := Outcome.map_eq_ok.mp hx
    exact comesBack_map (fun r : UInt8 × Bytes => .cert ⟨r.1, r.2⟩)
      (tagged_returns_iff (by omega) hr n)
      (fun y hy => by injection hy with hy; injection hy with h1 h2; exact Prod.ext h1 h2) rfl
      fun _ _ => Functor.map_map _ _ _
  | CERTreq =>
    obtain ⟨x, hx, rfl⟩ := Outcome.map_eq_ok.mp h
    obtain ⟨r, hr, rfl⟩ := Outcome.map_eq_ok.mp hx
    exact comesBack_map (fun r : UInt8 × Bytes => .certreq ⟨r.1, r.2⟩)
      (tagged_returns_iff (by omega) hr n)
      (fun y hy => by injection hy with hy; injection hy with h1 h2; exact Prod.ext h1 h2) rfl
      fun _ _ => Functor.map_map _ _ _
  | AUTH =>
    obtain ⟨x, hx, rfl⟩ := Outcome.map_eq_ok.mp h
    obtain ⟨r, hr, rfl⟩ := Outcome.map_eq_ok.mp hx
    exact comesBack_map (fun r : UInt8 × Bytes => .auth ⟨r.1, r.2⟩)
      (tagged_returns_iff (by omega) hr n)
      (fun y hy => by injection hy with hy; injection hy with h1 h2; exact Prod.ext h1 h2) rfl
      fun _ _ => Functor.map_map _ _ _
  | NiNr =>
    obtain ⟨x, hx, rfl⟩ := Outcome.map_eq_ok.mp h
    exact comesBack_map .nonce (Nonce.returns_iff hx n) (fun y hy => by injection hy) rfl
      fun _ _ => rfl
  | N =>
    obtain ⟨x, hx, rfl⟩ := Outcome.map_eq_ok.mp h
    exact comesBack_map .n (Notification.returns_iff hx n) (fun y hy => by injection hy) rfl
      fun _ _ => rfl
  | D =>
    obtain ⟨x, hx, rfl⟩ := Outcome.map_eq_ok.mp h
    exact comesBack_map .d (Delete.returns_iff hx n) (fun y hy => by injection hy) rfl
      fun _ _ => rfl
  | V =>
    obtain ⟨x, hx, rfl⟩ := Outcome.map_eq_ok.mp h
    exact comesBack_map .v (VendorID.returns_iff hx n) (fun y hy => by injection hy) rfl
      fun _ _ => rfl
  | TSi =>
    obtain ⟨x, hx, rfl⟩ := Outcome.map_eq_ok.mp h
    obtain ⟨tss, hts, rfl⟩ := Outcome.map_eq_ok.mp hx
    exact comesBack_map (fun tss => .tsi ⟨tss⟩) (ts_returns_iff _ hts n)
      (fun y hy => by injection hy with hy; injection hy) rfl fun _ _ => Functor.map_map _ _ _
  | TSr =>
    obtain ⟨x, hx, rfl⟩ := Outcome.map_eq_ok.mp h
    obtain ⟨tss, hts, rfl⟩ := Outcome.map_eq_ok.mp hx
    exact comesBack_map (fun tss => .tsr ⟨tss⟩) (ts_returns_iff _ hts n)
      (fun y hy => by injection hy with hy; injection hy)
      (TrafficSelectorResponder.marshal_eq ⟨tss⟩) fun _ _ => Functor.map_map _ _ _
  | SK =>
    obtain ⟨x, hx, rfl⟩ := Outcome.map_eq_ok.mp h
    exact comesBack_sk hx n
  | CP =>
    obtain ⟨x, hx, rfl⟩ := Outcome.map_eq_ok.mp h
    exact comesBack_map .cp (Configuration.returns_iff hx n) (fun y hy => by injection hy) rfl
      fun _ _ => rfl
  | EAP => exact absurd rfl ht

theorem comesBack_eap {e : EAP} {n : Nat} :
    (eap e).ComesBack n ↔ Returns EAP.marshal (EAP.unmarshal EAP.zero) e n :=
  comesBack_map .eap Iff.rfl (fun y hy => by injection hy) rfl fun _ _ => rfl

theorem comesBack_of_kept {next : UInt8} {t : IkePayloadType} {body sp : Bytes} {p : IKEPayload}
    (h : (new next t).unmarshal ⟨body, sp⟩ = .ok p) {n : Nat} (hk : BodyKept t body n)
    (hn : n ≤ 65531) : p.ComesBack n := by
  by_cases ht : t = .EAP
  · subst ht
    obtain ⟨e, he, rfl⟩ := Outcome.map_eq_ok.mp h
    exact comesBack_eap.mpr (EAP.returns_of_kept he hk (by omega))
  · exact (comesBack_iff h ht n).mpr hk

theorem kept_of_comesBack {next : UInt8} {t : IkePayloadType} {body sp : Bytes} {p : IKEPayload}
    (h : (new next t).unmarshal ⟨body, sp⟩ = .ok p) (hmix : t = .EAP → ¬ AkaMixed body) {n : Nat}
    (hc : p.ComesBack n) : BodyKept t body n := by
  by_cases ht : t = .EAP
  · subst ht
    obtain ⟨e, he, rfl⟩ := Outcome.map_eq_ok.mp h
    exact EAP.kept_of_returns he (hmix rfl) (comesBack_eap.mp hc)
  · exact (comesBack_iff h ht n).mp hc

end IKEPayload

/-! ## the records that are written -/

namespace IKEPayloadContainer

/-- the records that the encoder writes, from the octets of the payloads -/
def recordsOf : IKEPayloadContainer → List Bytes → List Bytes
  | p :: ps, d :: ds => record (nextOctet p ps) d :: recordsOf ps ds
  | _, _ => []

/-- the octets of a payload, if they fit into a record -/
def Writes (p : IKEPayload) (d : Bytes) : Prop := p.marshal = .ok d ∧ d.length ≤ 65531

theorem encode_iff {ps : IKEPayloadContainer} {b : Bytes} :
    encode ps = .ok b ↔ ∃ ds, List.Forall₂ Writes ps ds ∧ b = (recordsOf ps ds).flatten := by
  induction ps generalizing b with
  | nil =>
    constructor
    · intro h
      injection h with h
      exact ⟨[], .nil, h.symm⟩
    · intro h
      obtain ⟨ds, hd, rfl⟩ := h
      cases hd
      rfl
  | cons p ps ih =>
    rw [encode_cons]
    constructor
    · intro h
      obtain ⟨data, rest, hd, hl, hr, rfl⟩ := h
      obtain ⟨ds, hds, rfl⟩ := ih.mp hr
      exact ⟨data :: ds, .cons ⟨hd, by omega⟩ hds, rfl⟩
    · intro h
      obtain ⟨ds, hds, rfl⟩ := h
      cases hds with
      | @cons _ d _ ds hd hds =>
        exact ⟨d, (recordsOf ps ds).flatten, hd.1, by have := hd.2; omega, ih.mpr ⟨ds, hds, rfl⟩, rfl⟩

theorem lenRec_recordsOf {ps : IKEPayloadContainer} {ds : List Bytes}
    (h : List.Forall₂ Writes ps ds) : ∀ a ∈ recordsOf ps ds, LenRec 4 a := by
  induction h with
  | nil => intro a ha; exact absurd ha (by simp [recordsOf])
  | @cons p d ps ds hd _ ih =>
    intro a ha
    rcases List.mem_cons.mp ha with rfl | ha
    · exact lenRec_record (by have := hd.2; omega)
    · exact ih a ha

theorem length_recordsOf {ps : IKEPayloadContainer} {ds : List Bytes}
    (h : List.Forall₂ Writes ps ds) :
    (recordsOf ps ds).flatten.length = (ds.map fun d => 4 + d.length).sum := by
  induction h with
  | nil => rfl
  | @cons p d ps ds hd _ ih =>
    rw [recordsOf, List.flatten_cons, List.length_append, ih, List.map_cons, List.sum_cons]
    simp only [record, List.length_append, List.length_cons, List.length_nil, length_putUint16]

/-- payloads that are read from the records written for them come back, and SK payloads find the
octet they carry -/
theorem reads_back {sp : Bytes} {n' : UInt8} {ps : IKEPayloadContainer} {ds : List Bytes}
    (h : List.Forall₂ Writes ps ds) (hc : PayloadChain sp (firstType ps) (recordsOf ps ds) ps n') :
    Linked ps ∧ List.Forall₂ (fun p d => p.ComesBack d.length) ps ds := by
  induction h with
  | nil => exact ⟨trivial, .nil⟩
  | @cons p d ps ds hd hds ih =>
    have htype : IkePayloadType.ofCode (firstType (p :: ps)) = some p.type :=
      IkePayloadType.ofCode_code p.type
    cases hc with
    | skip _ ht _ _ =>
      rw [htype] at ht
      exact absurd ht (by simp)
    | @payload _ _ t _ _ _ _ _ ht hp hc =>
      rw [htype] at ht
      injection ht with ht
      subst ht
      rw [recNext_record, recBody_record] at hp
      have hback : p.ComesBack d.length := ⟨d, _, _, hd.1, rfl, hp⟩
      have hcarry : p.Carries (nextOctet p ps) := by
        intro e he
        subst he
        have hsk := IKEPayload.nextPayload_of_unmarshal hp
        injection hsk with hsk
        exact (congrArg Encrypted.nextPayload hsk).symm
      cases ps with
      | nil =>
        cases hds
        exact ⟨⟨hcarry, trivial⟩, .cons hback .nil⟩
      | cons q ps =>
        obtain ⟨hl, hb⟩ := ih hc
        exact ⟨⟨hcarry, hl⟩, .cons hback hb⟩

/-- what decoding the written octets says about the payloads -/
theorem comesBack_of_decode {ps : IKEPayloadContainer} {b sp : Bytes} (he : encode ps = .ok b)
    (hd : decode [] (firstType ps) ⟨b, sp⟩ = .ok ps) :
    Linked ps ∧ ∃ ns, List.Forall₂ (fun p n => p.ComesBack n ∧ n ≤ 65531) ps ns ∧
      b.length = (ns.map fun n => 4 + n).sum := by
  obtain ⟨ds, hds, rfl⟩ := encode_iff.mp he
  obtain ⟨as, ps', n', hc, hflat, hps⟩ := decode_iff.mp hd
  obtain rfl : as = recordsOf ps ds :=
    lenRecs_unique (h := 4) (by omega) (lenRec_of_chain hc) (lenRec_recordsOf hds) hflat.symm
  obtain rfl : ps = ps' := hps
  obtain ⟨hl, hb⟩ := reads_back hds hc
  refine ⟨hl, ds.map List.length, ?_, ?_⟩
  · rw [List.forall₂_map_right_iff]
    exact List.Forall₂.mp (fun p d hcb hw => ⟨hcb, hw.2⟩) hb hds
  · rw [length_recordsOf hds, List.map_map]
    rfl

/-- payloads that come back are written -/
theorem encode_of_comesBack {ps : IKEPayloadContainer} {ns : List Nat}
    (h : List.Forall₂ (fun p n => p.ComesBack n ∧ n ≤ 65531) ps ns) :
    ∃ b, encode ps = .ok b ∧ b.length = (ns.map fun n => 4 + n).sum := by
  obtain ⟨ds, hds, hns⟩ : ∃ ds, List.Forall₂ Writes ps ds ∧ ns = ds.map List.length := by
    induction h with
    | nil => exact ⟨[], .nil, rfl⟩
    | @cons p n ps ns hp _ ih =>
      obtain ⟨ds, hds, rfl⟩ := ih
      obtain ⟨⟨d, _, _, hm, rfl, _⟩, hle⟩ := hp
      exact ⟨d :: ds, .cons ⟨hm, hle⟩ hds, rfl⟩
  refine ⟨_, encode_iff.mpr ⟨ds, hds, rfl⟩, ?_⟩
  rw [length_recordsOf hds, hns, List.map_map]
  rfl

end IKEPayloadContainer

/-! ## the records of an accepted message -/

/-- the records of known types, with their types; the first record is announced as `n` -/
def knownRecords : UInt8 → List Bytes → List (IkePayloadType × Bytes)
  | _, [] => []
  | n, a :: as =>
    match IkePayloadType.ofCode n with
    | some t => (t, recBody a) :: knownRecords (recNext a) as
    | none => knownRecords (recNext a) as

/-- an SK record is the last of a known type, or followed by one of a known type -/
def SkFollowed : UInt8 → List Bytes → Prop
  | _, [] => True
  | n, a :: as =>
    (IkePayloadType.ofCode n = some .SK →
      IkePayloadType.ofCode (recNext a) ≠ none ∨ knownRecords (recNext a) as = []) ∧
    SkFollowed (recNext a) as

theorem knownRecords_of_some {n : UInt8} {t : IkePayloadType} (h : IkePayloadType.ofCode n = some t)
    (a : Bytes) (as : List Bytes) :
    knownRecords n (a :: as) = (t, recBody a) :: knownRecords (recNext a) as := by
  rw [knownRecords, h]

theorem knownRecords_of_none {n : UInt8} (h : IkePayloadType.ofCode n = none) (a : Bytes)
    (as : List Bytes) : knownRecords n (a :: as) = knownRecords (recNext a) as := by
  rw [knownRecords, h]

/-- the payload was read from the data of a record -/
def ReadFrom (r : IkePayloadType × Bytes) (p : IKEPayload) : Prop :=
  ∃ next sp, (IKEPayload.new next r.1).unmarshal ⟨r.2, sp⟩ = .ok p

theorem forall₂_known {sp : Bytes} {n n' : UInt8} {as : List Bytes} {ps : IKEPayloadContainer}
    (h : PayloadChain sp n as ps n') : List.Forall₂ ReadFrom (knownRecords n as) ps := by
  induction h with
  | nil n => exact .nil
  | skip _ ht _ _ ih =>
    rw [knownRecords_of_none ht]
    exact ih
  | payload _ ht hp _ ih =>
    rw [knownRecords_of_some ht]
    exact .cons ⟨_, _, hp⟩ ih

/-- the first payload of a chain has the announced type, if that is a known one -/
theorem firstType_of_chain {sp : Bytes} {n n' : UInt8} {as : List Bytes} {p : IKEPayload}
    {ps : IKEPayloadContainer} (h : PayloadChain sp n as (p :: ps) n') :
    p.type.code = n ↔ IkePayloadType.ofCode n ≠ none := by
  constructor
  · intro hn
    rw [← hn, IkePayloadType.ofCode_code]
    simp
  · intro hn
    cases h with
    | skip _ ht _ _ => exact absurd ht hn
    | payload _ ht hp _ =>
      rw [IKEPayload.type_of_unmarshal hp]
      exact (IkePayloadType.code_of_ofCode ht).symm

/-- the octet of an SK payload is the one the encoder writes, unless an unknown record stands
between it and a later payload -/
theorem linked_iff {sp : Bytes} {n n' : UInt8} {as : List Bytes} {ps : IKEPayloadContainer}
    (h : PayloadChain sp n as ps n') : IKEPayloadContainer.Linked ps ↔ SkFollowed n as := by
  induction h with
  | nil n => exact Iff.rfl
  | @skip n n' a as ps _ ht _ _ ih =>
    rw [SkFollowed, ← ih, ht]
    exact ⟨fun h => ⟨fun hsk => absurd hsk (by simp), h⟩, fun h => h.2⟩
  | @payload n n' t a as p ps _ ht hp hc ih =>
    rw [SkFollowed, ← ih, IKEPayloadContainer.Linked, ht]
    refine and_congr_left fun _ => ?_
    have htype : p.type = t := IKEPayload.type_of_unmarshal hp
    by_cases hsk : t = .SK
    · subst hsk
      have hpsk := IKEPayload.nextPayload_of_unmarshal hp
      have hlen := (forall₂_known hc).length_eq
      cases ps with
      | nil =>
        have hnone : knownRecords (recNext a) as = [] := List.length_eq_zero_iff.mp hlen
        exact ⟨fun _ _ => Or.inr hnone, fun _ => IKEPayloadContainer.carries_lastNext p⟩
      | cons q ps =>
        have hsome : knownRecords (recNext a) as ≠ [] := by
          intro h0
          rw [h0] at hlen
          exact absurd hlen (by simp)
        have hcarry : p.Carries q.type.code ↔ q.type.code = recNext a := by
          rw [hpsk]
          constructor
          · intro h
            exact h _ rfl
          · intro h e he
            injection he with he
            rw [h, ← he]
        show p.Carries q.type.code ↔ _
        rw [hcarry, firstType_of_chain hc]
        exact ⟨fun h _ => Or.inl h, fun h => (h rfl).resolve_right hsome⟩
    · constructor
      · intro _ h
        injection h with h
        exact absurd h hsk
      · intro _
        exact IKEPayload.carries_of_ne_sk (by rw [htype]; exact hsk) _

/-! ## accepted messages -/

/-- encoding the message succeeds, and decoding what was written gives its payloads and its header,
apart from the next payload and the payload octets -/
def IKEMessage.Stable (m : IKEMessage) : Prop :=
  ∃ b, (IKEMessage.encode m).1 = .ok b ∧ ∀ sp, ∃ m', IKEMessage.decode [] ⟨b, sp⟩ = .ok m' ∧
    m'.payloads = m.payloads ∧ m'.header.setPayload 0 [] = m.header.setPayload 0 []

/-- the condition on the octets: every payload body is kept, an SK record is not separated from
later payloads by an unknown record, and the new sizes fit the length fields -/
def Reencodes (b : Bytes) : Prop :=
  ∃ (as : List Bytes) (ns : List Nat), (∀ a ∈ as, LenRec 4 a) ∧ b.drop 28 = as.flatten ∧
    SkFollowed (headerOf b).nextPayload as ∧
    List.Forall₂ (fun (r : IkePayloadType × Bytes) n => BodyKept r.1 r.2 n ∧ n ≤ 65531)
      (knownRecords (headerOf b).nextPayload as) ns ∧
    28 + (ns.map fun n => 4 + n).sum ≤ 4294967295

/-- an EAP payload with an AKA' packet that has both padding and an attribute without a case -/
def MixedEap (b : Bytes) : Prop :=
  ∃ (as : List Bytes) (body : Bytes), (∀ a ∈ as, LenRec 4 a) ∧ b.drop 28 = as.flatten ∧
    (.EAP, body) ∈ knownRecords (headerOf b).nextPayload as ∧ AkaMixed body

theorem version_lt (v : UInt8) : v >>> 4 < 16 ∧ v &&& 0x0F < 16 := by
  have key : ∀ i < 256, UInt8.ofNat i >>> 4 < 16 ∧ UInt8.ofNat i &&& 0x0F < 16 := by decide +kernel
  have h := key v.toNat v.toNat_lt
  rwa [UInt8.ofNat_toNat] at h

theorem stable_of_reencodes {b sp : Bytes} {m : IKEMessage}
    (h : IKEMessage.decode [] ⟨b, sp⟩ = .ok m) (hr : Reencodes b) : m.Stable := by
  obtain ⟨_, _, _, hh, hd⟩ := message_decode_iff.mp h
  obtain ⟨as, ps, n', hc, hflat, hps⟩ := IKEPayloadContainer.decode_iff.mp hd
  obtain rfl : m.payloads = ps := hps
  obtain ⟨as', ns, hrec, hflat', hsk, hkept, hsize⟩ := hr
  obtain rfl : as' = as :=
    lenRecs_unique (h := 4) (by omega) hrec (lenRec_of_chain hc) (hflat'.symm.trans hflat)
  have hback : List.Forall₂ (fun p n => IKEPayload.ComesBack p n ∧ n ≤ 65531) m.payloads ns := by
    refine forall₂_trans ?_ (List.Forall₂.flip (R := flip ReadFrom) (forall₂_known hc)) hkept
    intro p _ r n hread hk
    obtain ⟨next, sp', hu⟩ := hread
    exact ⟨IKEPayload.comesBack_of_kept hu hk.1 hk.2, hk.2⟩
  obtain ⟨p, hp, hlen⟩ := IKEPayloadContainer.encode_of_comesBack hback
  have hfits : 28 + p.length ≤ 4294967295 := by omega
  obtain ⟨b', hmar⟩ :=
    marshal_header_iff (h := m.header.setPayload m.payloads.firstType p) |>.mpr hfits
  have hb' : (IKEMessage.encode m).1 = .ok b' := by
    unfold IKEMessage.encode
    rw [hp]
    exact hmar
  have hv := version_lt (b.getD 17 0)
  refine ⟨b', hb', fun sp' => ⟨_, decode_of_encode sp' ?_ ?_ ((linked_iff hc).mpr hsk) ?_ hb', rfl, rfl⟩⟩
  · rw [hh]
    exact hv.1
  · rw [hh]
    exact hv.2
  · intro q hq
    obtain ⟨n, _, hcb⟩ := forall₂_partner (R := fun n p => IKEPayload.ComesBack p n ∧ n ≤ 65531)
      (List.Forall₂.flip hback) hq
    exact hcb.1.survives

theorem reencodes_of_stable {b sp : Bytes} {m : IKEMessage}
    (h : IKEMessage.decode [] ⟨b, sp⟩ = .ok m) (hmix : ¬ MixedEap b) (hs : m.Stable) :
    Reencodes b := by
  obtain ⟨_, _, _, hh, hd⟩ := message_decode_iff.mp h
  obtain ⟨as, ps, n', hc, hflat, hps⟩ := IKEPayloadContainer.decode_iff.mp hd
  obtain rfl : m.payloads = ps := hps
  obtain ⟨b', hb', hread⟩ := hs
  obtain ⟨m', hm', hpay, _⟩ := hread []
  obtain ⟨p, hp, hmar⟩ := encode_message_ok hb'
  have hv := version_lt (b.getD 17 0)
  obtain ⟨hlen, _, hhead⟩ := headerOf_marshal (h := m.header.setPayload _ p)
    (by rw [hh]; exact hv.1) (by rw [hh]; exact hv.2) hmar
  obtain ⟨_, _, _, _, hd'⟩ := message_decode_iff.mp hm'
  rw [hpay, hhead] at hd'
  have hdrop : b'.drop 28 = p := congrArg IKEHeader.payloadBytes hhead
  rw [hdrop] at hd'
  obtain ⟨hl, ns, hback, hplen⟩ := IKEPayloadContainer.comesBack_of_decode hp hd'
  refine ⟨as, ns, lenRec_of_chain hc, hflat, (linked_iff hc).mp hl, ?_, ?_⟩
  · refine forall₂_trans ?_ (forall₂_known hc) hback
    intro r hr p n hread hcb
    obtain ⟨next, sp', hu⟩ := hread
    refine ⟨IKEPayload.kept_of_comesBack hu ?_ hcb.1, hcb.2⟩
    intro ht hx
    exact hmix ⟨as, r.2, lenRec_of_chain hc, hflat, by rw [← ht]; exact hr, hx⟩
  · have hfits : 28 + p.length ≤ 4294967295 := marshal_header_iff.mp ⟨b', hmar⟩
    omega

/-- **Decoding and encoding is stable** on the messages that are written again; and on no others, if
mixed EAP packets are left aside. -/
theorem decoded_stable {b sp : Bytes} {m : IKEMessage} (h : IKEMessage.decode [] ⟨b, sp⟩ = .ok m) :
    (Reencodes b → m.Stable) ∧ (¬ MixedEap b → m.Stable → Reencodes b) :=
  ⟨stable_of_reencodes h, reencodes_of_stable h⟩

/-- a nonce and a Delete payload with one SPI -/
theorem decoded_stable_delete :
    ∃ m, IKEMessage.decode [] (Slice.ofList (informational 40 46
      [42, 0, 0, 6, 1, 2, 0, 0, 0, 12, 3, 4, 0, 1, 9, 9, 9, 9])) = .ok m ∧ m.Stable := by
  obtain ⟨m, hm⟩ : ∃ m, IKEMessage.decode [] (Slice.ofList (informational 40 46
    [42, 0, 0, 6, 1, 2, 0, 0, 0, 12, 3, 4, 0, 1, 9, 9, 9, 9])) = .ok m := ⟨_, rfl⟩
  refine ⟨m, hm, (decoded_stable hm).1 ?_⟩
  refine ⟨[[42, 0, 0, 6, 1, 2], [0, 0, 0, 12, 3, 4, 0, 1, 9, 9, 9, 9]], [2, 8], ?_, rfl, ?_, ?_, ?_⟩
  · intro a ha
    rcases List.mem_cons.mp ha with rfl | ha
    · exact ⟨by decide, by decide⟩
    · rw [List.mem_singleton.mp ha]
      exact ⟨by decide, by decide⟩
  · exact ⟨fun h => absurd h (by decide), fun h => absurd h (by decide), trivial⟩
  · refine .cons ⟨rfl, by omega⟩ (.cons ⟨Or.inr ⟨3, 4, 0, 1, [9, 9, 9, 9], rfl, rfl, ?_, rfl⟩, by omega⟩ .nil)
    exact Or.inr rfl
  · decide

/-- an empty Key Exchange payload is written as four octets, which are not accepted; a proposal with
transforms of unknown types only is not written; the type of a configuration attribute is changed -/
theorem decoded_not_stable :
    (∃ m, IKEMessage.decode [] (Slice.ofList (informational 34 32 [0, 0, 0, 4])) = .ok m ∧
      ¬ m.Stable) ∧
    (∃ m, IKEMessage.decode [] (Slice.ofList (informational 33 48
      [0, 0, 0, 20, 0, 0, 0, 16, 1, 1, 0, 1, 0, 0, 0, 8, 9, 0, 0, 1])) = .ok m ∧ ¬ m.Stable) ∧
    (∃ m, IKEMessage.decode [] (Slice.ofList (informational 47 40
      [0, 0, 0, 12, 1, 0, 0, 0, 0x80, 1, 0, 0])) = .ok m ∧ ¬ m.Stable) := by
  refine ⟨⟨_, rfl, ?_⟩, ⟨_, rfl, ?_⟩, ⟨_, rfl, ?_⟩⟩
  · intro hs
    obtain ⟨b, hb, hread⟩ := hs
    injection hb with hb
    obtain ⟨m, hm, _⟩ := hread []
    rw [← hb] at hm
    injection hm
  · intro hs
    obtain ⟨b, hb, _⟩ := hs
    injection hb
  · intro hs
    obtain ⟨b, hb, hread⟩ := hs
    injection hb with hb
    obtain ⟨m, hm, hp, _⟩ := hread []
    rw [← hb] at hm
    injection hm with hm
    rw [← hm] at hp
    injection hp with hp _
    injection hp with hp
    exact absurd hp (by decide)

end Ike

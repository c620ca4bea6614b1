import IKEv2.Message.Payload

/-!
# The payload chain (`IKEPayloadContainer.Encode`, `Decode`)

Each payload stands in a record of its own: next-payload octet, flags, length, data.  The type of a
payload is in the record in front of it, so the decoder carries the announced type from record to
record; the octet of the last record is 0, or for an SK payload the type of the first payload inside.

* `decode_record`     what the decoder does with the record in front of it;
* `PayloadChain`      what the decoder makes of a list of records;
* `decode_iff`        it accepts exactly the concatenations of records that form a chain;
* `decode_encode`     what the encoder writes is decoded to the same payloads.
-/

set_option linter.unusedVariables false

namespace Ike
open GoLang

abbrev IKEPayloadContainer := List IKEPayload

namespace IKEPayloadContainer

/-- the next-payload octet of the last record -/
def lastNext : IKEPayload → UInt8
  | .sk e => e.nextPayload
  | _ => noNext

/-- the next-payload octet of the record of `p`, in front of `ps` -/
def nextOctet (p : IKEPayload) : IKEPayloadContainer → UInt8
  | q :: _ => q.type.code
  | [] => lastNext p

/-- the record of a payload -/
def record (next : UInt8) (data : Bytes) : Bytes :=
  [next, 0] ++ putUint16 (UInt16.ofNat (4 + data.length)) ++ data

def encode : IKEPayloadContainer → Outcome Bytes
  | [] => .ok []
  | p :: ps => do
    let data ← p.marshal.wrapf "EncodePayload(): Failed to marshal payload"
    if 4 + data.length > 0xFFFF then
      fail s!"EncodePayload(): payloadData length exceeds uint16 limit: {4 + data.length}"
    else do
      let rest ← encode ps
      pure (record (nextOctet p ps) data ++ rest)

/-- the switch over the announced type, on the data from this record on -/
def decodePayload (s : UInt8 × IKEPayloadContainer) (b : Slice UInt8) (payloadLength : UInt16) :
    Outcome (UInt8 × IKEPayloadContainer) := do
  let flags ← b.index 1
  let criticalBit := (flags &&& 0x80) >>> 7
  match IkePayloadType.ofCode s.1 with
  | none =>
    -- an unknown payload is skipped, unless it is critical
    if criticalBit = 0 then do
      let next ← b.index 0
      pure (next, s.2)
    else fail s!"Unknown payload type: {s.1.toNat}"
  | some t => do
    let next ← b.index 0
    let body ← b.slice 4 payloadLength.toNat
    let p ← ((IKEPayload.new next t).unmarshal body).wrapf
      "DecodePayload(): Unmarshal payload failed"
    pure (next, s.2 ++ [p])

def decodeRound :
    Slice UInt8 × UInt8 × IKEPayloadContainer → Outcome (Slice UInt8 × UInt8 × IKEPayloadContainer) :=
  lenRound 4 "DecodePayload(): No sufficient bytes to decode next payload"
    (fun n => s!"DecodePayload(): Illegal payload length {n} < header length 4")
    (fun n => s!"DecodePayload(): The length of received message not matchs the length specified in header: {n}")
    decodePayload

def decode (container : IKEPayloadContainer) (nextPayload : UInt8) (b : Slice UInt8) :
    Outcome IKEPayloadContainer := do
  let s ← peelLoop decodeRound (b, nextPayload, container)
  pure s.2.2

end IKEPayloadContainer

/-! ## records -/

/-- the next-payload octet of a record -/
def recNext (a : Bytes) : UInt8 := a.headD 0

/-- the critical bit of a record -/
def recCritical (a : Bytes) : Bool := 128 ≤ ((a.drop 1).headD 0).toNat

/-- the data of a record -/
def recBody (a : Bytes) : Bytes := a.drop 4

/-- `PayloadChain sp n as ps n'`: from the announced type `n` the records `as` are read as the
payloads `ps`, and the last of them announces `n'`; `sp` is what lies behind them -/
inductive PayloadChain (sp : Bytes) : UInt8 → List Bytes → IKEPayloadContainer → UInt8 → Prop
  | nil (n : UInt8) : PayloadChain sp n [] [] n
  | skip {n n' : UInt8} {a : Bytes} {as : List Bytes} {ps : IKEPayloadContainer} (ha : LenRec 4 a)
      (ht : IkePayloadType.ofCode n = none) (hc : recCritical a = false)
      (h : PayloadChain sp (recNext a) as ps n') : PayloadChain sp n (a :: as) ps n'
  | payload {n n' : UInt8} {t : IkePayloadType} {a : Bytes} {as : List Bytes} {p : IKEPayload}
      {ps : IKEPayloadContainer} (ha : LenRec 4 a) (ht : IkePayloadType.ofCode n = some t)
      (hp : (IKEPayload.new (recNext a) t).unmarshal ⟨recBody a, as.flatten ++ sp⟩ = .ok p)
      (h : PayloadChain sp (recNext a) as ps n') : PayloadChain sp n (a :: as) (p :: ps) n'

namespace IKEPayloadContainer

theorem criticalBit_eq_zero (x : UInt8) : (x &&& 0x80) >>> 7 = 0 ↔ ¬ 128 ≤ x.toNat := by
  rw [topBit_eq]
  by_cases h : x.toNat < 128
  · rw [if_pos h]
    exact ⟨fun _ => by omega, fun _ => rfl⟩
  · rw [if_neg h]
    exact ⟨fun h1 => absurd h1 (by decide), fun h1 => absurd h1 (by omega)⟩

/-- the switch on a whole record -/
theorem decodePayload_eq {a : Bytes} (ha : LenRec 4 a) (rest sp : Bytes)
    (s : UInt8 × IKEPayloadContainer) :
    decodePayload s ⟨a ++ rest, sp⟩ (UInt16.ofNat a.length) =
      match IkePayloadType.ofCode s.1 with
      | none =>
        if recCritical a then fail s!"Unknown payload type: {s.1.toNat}" else .ok (recNext a, s.2)
      | some t =>
        (fun p => (recNext a, s.2 ++ [p])) <$>
          ((IKEPayload.new (recNext a) t).unmarshal ⟨recBody a, rest ++ sp⟩).wrapf
            "DecodePayload(): Unmarshal payload failed" := by
  have hl4 : 4 ≤ a.length := ha.1
  have hlt : a.length < 65536 := by rw [← ha.2]; exact lenField_lt a
  have hn : (UInt16.ofNat a.length).toNat = a.length := UInt16.toNat_ofNat_of_lt' hlt
  match a, hl4 with
  | x :: y :: l, hl4 =>
    have hslice : (⟨x :: y :: l ++ rest, sp⟩ : Slice UInt8).slice 4
        (UInt16.ofNat (x :: y :: l).length).toNat =
          .ok ⟨recBody (x :: y :: l), rest ++ sp⟩ := by
      rw [hn, Slice.slice_data _ hl4 (by simp), List.take_left, List.drop_left]
      rfl
    have hnext : recNext (x :: y :: l) = x := rfl
    have hcrit : recCritical (x :: y :: l) = decide (128 ≤ y.toNat) := rfl
    unfold decodePayload
    simp only [List.cons_append, Slice.index_mk_succ, Slice.index_mk_zero, Outcome.ok_bind] at hslice ⊢
    rw [hnext, hcrit]
    cases IkePayloadType.ofCode s.1 with
    | none =>
      simp only [criticalBit_eq_zero, decide_eq_true_eq]
      by_cases hc : 128 ≤ y.toNat
      · rw [if_neg (not_not_intro hc), if_pos hc]
      · rw [if_pos hc, if_neg hc]
        rfl
    | some t =>
      simp only [hslice, Outcome.ok_bind]
      cases (IKEPayload.new x t).unmarshal ⟨recBody (x :: y :: l), rest ++ sp⟩ <;> rfl

theorem decodePayload_iff {a rest sp : Bytes} (ha : LenRec 4 a) {s t : UInt8 × IKEPayloadContainer} :
    decodePayload s ⟨a ++ rest, sp⟩ (UInt16.ofNat a.length) = .ok t ↔
      t.1 = recNext a ∧
        ((IkePayloadType.ofCode s.1 = none ∧ recCritical a = false ∧ t.2 = s.2) ∨
        ∃ ty p, IkePayloadType.ofCode s.1 = some ty ∧
          (IKEPayload.new (recNext a) ty).unmarshal ⟨recBody a, rest ++ sp⟩ = .ok p ∧
          t.2 = s.2 ++ [p]) := by
  obtain ⟨t1, t2⟩ := t
  rw [decodePayload_eq ha]
  cases IkePayloadType.ofCode s.1 with
  | none =>
    cases recCritical a with
    | true => simp
    | false => simp [eq_comm]
  | some ty =>
    simp only [Outcome.map_eq_ok, Outcome.wrapf_eq_ok, Prod.mk.injEq]
    constructor
    · intro h
      obtain ⟨p, hp, h1, h2⟩ := h
      exact ⟨h1.symm, Or.inr ⟨ty, p, rfl, hp, h2.symm⟩⟩
    · intro h
      obtain ⟨h1, ⟨h0, _⟩ | ⟨ty', p, hty, hp, h2⟩⟩ := h
      · exact absurd h0 (by simp)
      · obtain rfl := Option.some.inj hty
        exact ⟨p, hp, h1.symm, h2.symm⟩

theorem decode_nil (acc : IKEPayloadContainer) (n : UInt8) (sp : Bytes) :
    decode acc n ⟨[], sp⟩ = .ok acc := by
  unfold decode decodeRound
  rw [lenLoop_nil (by omega)]
  rfl

/-- the decoder on a whole record and what is behind it -/
theorem decode_record {a : Bytes} (ha : LenRec 4 a) (acc : IKEPayloadContainer) (n : UInt8)
    (rest sp : Bytes) :
    decode acc n ⟨a ++ rest, sp⟩ =
      match IkePayloadType.ofCode n with
      | none =>
        if recCritical a then fail s!"Unknown payload type: {n.toNat}"
        else decode acc (recNext a) ⟨rest, sp⟩
      | some t =>
        ((IKEPayload.new (recNext a) t).unmarshal ⟨recBody a, rest ++ sp⟩).wrapf
            "DecodePayload(): Unmarshal payload failed" >>= fun p =>
          decode (acc ++ [p]) (recNext a) ⟨rest, sp⟩ := by
  unfold decode decodeRound
  rw [lenLoop_record (by omega) _ _ _ _ ha, decodePayload_eq ha]
  cases IkePayloadType.ofCode n with
  | none => cases recCritical a <;> rfl
  | some t =>
    dsimp only
    cases (IKEPayload.new (recNext a) t).unmarshal ⟨recBody a, rest ++ sp⟩ <;> rfl

/-- one record of the chain -/
def DecodeStep (s : UInt8 × IKEPayloadContainer) (a rest sp : Bytes)
    (s' : UInt8 × IKEPayloadContainer) : Prop :=
  LenRec 4 a ∧ decodePayload s ⟨a ++ rest, sp⟩ (UInt16.ofNat a.length) = .ok s'

theorem decodeRound_reads : Reads decodeRound id DecodeStep := 
  lenRound_reads (by omega) _ _ _ _

theorem decodeStep_ne (s : UInt8 × IKEPayloadContainer) (a rest sp : Bytes)
    (s' : UInt8 × IKEPayloadContainer) (h : DecodeStep s a rest sp s') : id a ≠ [] :=
  lenRec_ne_nil (by decide) h.1

theorem chain_of_peel {sp : Bytes} {s s' : UInt8 × IKEPayloadContainer} {as : List Bytes}
    (h : Peel id DecodeStep sp s as s') : ∃ ps, PayloadChain sp s.1 as ps s'.1 ∧ s'.2 = s.2 ++ ps := by
  induction h with
  | nil s => exact ⟨[], .nil _, (List.append_nil _).symm⟩
  | @cons s s1 s2 a as hs _ ih =>
    obtain ⟨ps, hc, hps⟩ := ih
    obtain ⟨h1, h2⟩ := (decodePayload_iff hs.1).mp hs.2
    rw [h1] at hc
    rcases h2 with ⟨ht, hcr, h2⟩ | ⟨t, p, ht, hp, h2⟩
    · exact ⟨ps, .skip hs.1 ht hcr hc, by rw [hps, h2]⟩
    · rw [List.flatMap_id] at hp
      exact ⟨p :: ps, .payload hs.1 ht hp hc, by rw [hps, h2, List.append_assoc]; rfl⟩

theorem peel_of_chain {sp : Bytes} {n n' : UInt8} {as : List Bytes} {ps : IKEPayloadContainer}
    (h : PayloadChain sp n as ps n') (acc : IKEPayloadContainer) :
    Peel id DecodeStep sp (n, acc) as (n', acc ++ ps) := by
  induction h generalizing acc with
  | nil n => rw [List.append_nil]; exact .nil _
  | @skip n n' a as ps ha ht hc _ ih =>
    exact .cons ⟨ha, (decodePayload_iff ha (t := (recNext a, acc))).mpr
      ⟨rfl, Or.inl ⟨ht, hc, rfl⟩⟩⟩ (ih acc)
  | @payload n n' t a as p ps ha ht hp _ ih =>
    have hstep := ih (acc ++ [p])
    rw [List.append_assoc] at hstep
    refine .cons ⟨ha, (decodePayload_iff ha (t := (recNext a, acc ++ [p]))).mpr
      ⟨rfl, Or.inr ⟨t, p, ht, ?_, rfl⟩⟩⟩ hstep
    rw [List.flatMap_id]
    exact hp

/-- **Accepted payload data**: records that form a chain from the announced type. -/
theorem decode_iff {acc r : IKEPayloadContainer} {n : UInt8} {d sp : Bytes} :
    decode acc n ⟨d, sp⟩ = .ok r ↔
      ∃ as ps n', PayloadChain sp n as ps n' ∧ d = as.flatten ∧ r = acc ++ ps := by
  unfold decode
  rw [Outcome.bind_eq_ok]
  constructor
  · rintro ⟨s, hs, h⟩
    obtain ⟨as, s', hp, hd, rfl⟩ := (peelLoop_iff decodeRound_reads decodeStep_ne).mp hs
    obtain ⟨ps, hc, hps⟩ := chain_of_peel hp
    injection h with h
    exact ⟨as, ps, s'.1, hc, by rw [hd, List.flatMap_id], by rw [← h]; exact hps⟩
  · rintro ⟨as, ps, n', hc, rfl, rfl⟩
    have hp := peelLoop_of_peel decodeRound_reads decodeStep_ne (peel_of_chain hc acc)
    rw [List.flatMap_id] at hp
    exact ⟨_, hp, rfl⟩

/-! ## what the encoder writes -/

/-- the type announced in front of the payloads -/
def firstType : IKEPayloadContainer → UInt8
  | p :: _ => p.type.code
  | [] => noNext

theorem lenRec_record {next : UInt8} {data : Bytes} (h : ¬ 4 + data.length > 0xFFFF) :
    LenRec 4 (record next data) := by
  have hl : (record next data).length = 4 + data.length := by
    simp only [record, List.length_append, List.length_cons, List.length_nil, length_putUint16]
  refine ⟨by omega, ?_⟩
  show lenField (next :: 0 :: (putUint16 _ ++ data)) = _
  rw [lenField_put, UInt16.toNat_ofNat_of_lt' (show 4 + data.length < 65536 by omega), hl]

theorem recNext_record (next : UInt8) (data : Bytes) : recNext (record next data) = next := rfl

theorem recBody_record (next : UInt8) (data : Bytes) : recBody (record next data) = data :=
  List.drop_left' rfl

/-- every SK payload carries the octet that the encoder writes into its record -/
def Linked : IKEPayloadContainer → Prop
  | [] => True
  | p :: ps => p.Carries (nextOctet p ps) ∧ Linked ps

theorem carries_lastNext (p : IKEPayload) : p.Carries (lastNext p) := by
  rintro e rfl
  rfl

theorem linked_of_last {ps : IKEPayloadContainer} (h : ∀ p ∈ ps.dropLast, p.type ≠ .SK) :
    Linked ps := by
  induction ps with
  | nil => trivial
  | cons p ps ih =>
    cases ps with
    | nil => exact ⟨carries_lastNext p, trivial⟩
    | cons q ps =>
      refine ⟨IKEPayload.carries_of_ne_sk (h p (List.mem_cons_self ..)) _, ?_⟩
      exact ih fun x hx => h x (List.mem_cons_of_mem _ hx)

theorem encode_cons {p : IKEPayload} {ps : IKEPayloadContainer} {b : Bytes} :
    encode (p :: ps) = .ok b ↔
      ∃ data rest, p.marshal = .ok data ∧ ¬ 4 + data.length > 0xFFFF ∧ encode ps = .ok rest ∧
        b = record (nextOctet p ps) data ++ rest := by
  constructor
  · intro h
    obtain ⟨data, hd, hb⟩ := Outcome.bind_eq_ok.mp h
    by_cases hl : 4 + data.length > 0xFFFF
    · rw [if_pos hl] at hb
      exact absurd hb (fail_ne_ok _ _)
    · rw [if_neg hl] at hb
      obtain ⟨rest, hr, hb⟩ := Outcome.bind_eq_ok.mp hb
      injection hb with hb
      exact ⟨data, rest, Outcome.wrapf_eq_ok.mp hd, hl, hr, hb.symm⟩
  · rintro ⟨data, rest, hd, hl, hr, rfl⟩
    rw [encode, hd, Outcome.wrapf_ok, Outcome.ok_bind, if_neg hl, hr]
    rfl

/-- the records the encoder writes are read as the payloads they were made of -/
theorem chain_of_encode {ps : IKEPayloadContainer} (hs : ∀ p ∈ ps, p.Survives) (hl : Linked ps)
    {b : Bytes} (h : encode ps = .ok b) :
    ∃ as n', b = as.flatten ∧ ∀ sp, PayloadChain sp (firstType ps) as ps n' := by
  induction ps generalizing b with
  | nil =>
    injection h with h
    exact ⟨[], noNext, h.symm, fun sp => .nil _⟩
  | cons p ps ih =>
    obtain ⟨data, rest, hd, hlen, hr, rfl⟩ := encode_cons.mp h
    obtain ⟨data', hd', hu⟩ := (hs p (List.mem_cons_self ..)).unmarshal
    rw [hd] at hd'
    injection hd' with hd'
    subst hd'
    have hp : ∀ sp, (IKEPayload.new (recNext (record (nextOctet p ps) data)) p.type).unmarshal
        ⟨recBody (record (nextOctet p ps) data), sp⟩ = .ok p := by
      intro sp
      rw [recNext_record, recBody_record]
      exact hu _ _ hl.1
    cases ps with
    | nil =>
      injection hr with hr
      subst hr
      exact ⟨[record (nextOctet p []) data], _, rfl, fun sp =>
        .payload (lenRec_record hlen) (IkePayloadType.ofCode_code _) (hp _) (.nil _)⟩
    | cons q ps =>
      obtain ⟨as, n', rfl, hc⟩ := ih (fun q hq => hs q (List.mem_cons_of_mem _ hq)) hl.2 hr
      exact ⟨record (nextOctet p (q :: ps)) data :: as, n', rfl, fun sp =>
        .payload (lenRec_record hlen) (IkePayloadType.ofCode_code _) (hp _) (hc sp)⟩

/-- **What the encoder writes is decoded to the same payloads.** -/
theorem decode_encode {ps : IKEPayloadContainer} (hs : ∀ p ∈ ps, p.Survives) (hl : Linked ps)
    {b : Bytes} (h : encode ps = .ok b) (sp : Bytes) :
    decode [] (firstType ps) ⟨b, sp⟩ = .ok ps := by
  obtain ⟨as, n', hb, hc⟩ := chain_of_encode hs hl h
  exact decode_iff.mpr ⟨as, ps, n', hc sp, hb, rfl⟩

end IKEPayloadContainer

end Ike

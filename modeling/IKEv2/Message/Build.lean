import IKEv2.Message.Kept

/-!
# Payloads made by the builders (`message/build.go`)

What the encoders make of the payloads that `BuildConfiguration` and `BuildDeletePayload` append to a
message, and whether the decoders give these payloads back.

* `Configuration.roundTrips_iff`   a configuration comes back iff it has an attribute;
* `Delete.reversible_iff`          a Delete payload is encoded or refused, and comes back, iff its
                                   count is wrong, or it has no SPI, or its SPIs have four octets.
-/

set_option linter.unusedVariables false

namespace Ike
open GoLang

/-- `IKEPayloadContainer.BuildConfiguration`: a configuration without attributes -/
def buildConfiguration (container : List IKEPayload) (configurationType : UInt8) :
    List IKEPayload :=
  container ++ [.cp { configurationType := configurationType, configurationAttribute := [] }]

/-- `ConfigurationAttributeContainer.BuildConfigurationAttribute` -/
def buildConfigurationAttribute (container : List IndividualConfigurationAttribute)
    (attributeType : UInt16) (attributeValue : Bytes) : List IndividualConfigurationAttribute :=
  container ++ [{ type := attributeType, value := attributeValue }]

/-- `IKEPayloadContainer.BuildDeletePayload`; the arguments are stored as they are -/
def buildDeletePayload (container : List IKEPayload) (protocolID spiSize : UInt8)
    (numberOfSPI : UInt16) (spis : List UInt32) : List IKEPayload :=
  container ++ [.d { protocolID := protocolID, spiSize := spiSize, numberOfSPI := numberOfSPI,
                     spis := spis }]

/-! ## Configuration -/

/-- the configuration is encoded, and a new object reads it from these octets -/
def Configuration.RoundTrips (c : Configuration) : Prop :=
  ∃ b, c.marshal = .ok b ∧ ∀ sp, Configuration.unmarshal ⟨0, []⟩ ⟨b, sp⟩ = .ok c

/-- **A configuration comes back iff it has an attribute**: the decoder refuses the four octets of a
configuration without any. -/
theorem Configuration.roundTrips_iff {c : Configuration}
    (ht : ∀ a ∈ c.configurationAttribute, a.type.toNat < 2 ^ 15)
    (hv : ∀ a ∈ c.configurationAttribute, a.value.length < 65532) :
    c.RoundTrips ↔ c.configurationAttribute ≠ [] := by
  have hok : ∀ a ∈ c.configurationAttribute, AttrOk a := by
    intro a ha
    have hlt := hv a ha
    show a.value.length < 65536
    omega
  have hm := Configuration.marshal_ok hok
  rw [(map_clearTop_eq_self _).mpr ht] at hm
  constructor
  · intro h h0
    obtain ⟨b, hb, hu⟩ := h
    rw [hm, h0] at hb
    obtain rfl := Outcome.ok.inj hb
    have hread := hu []
    rw [Configuration.unmarshal_short _ (by simp) (by simp)] at hread
    exact fail_ne_ok _ _ hread
  · intro hne
    refine ⟨_, hm, fun sp => (Configuration.unmarshal_iff ..).mpr (Or.inr ?_)⟩
    exact ⟨c.configurationType, 0, 0, 0, c.configurationAttribute, rfl, hne, hok, rfl⟩

/-- a request for an IPv4 address and a DNS server -/
theorem Configuration.roundTrips_request :
    Configuration.RoundTrips ⟨1, buildConfigurationAttribute
      (buildConfigurationAttribute [] 1 []) 3 [10, 0, 0, 1]⟩ := by
  refine (Configuration.roundTrips_iff ?_ ?_).mpr (by decide)
  · decide
  · decide

/-- what `BuildConfiguration` appends is not read back -/
theorem Configuration.empty_refused :
    buildConfiguration [] 1 = [.cp ⟨1, []⟩] ∧ Configuration.marshal ⟨1, []⟩ = .ok [1, 0, 0, 0] ∧
      Configuration.unmarshal ⟨0, []⟩ ⟨[1, 0, 0, 0], []⟩ =
        fail "Configuration: No sufficient bytes to decode next configuration" :=
  ⟨rfl, by decide, by decide⟩

/-! ## Delete -/

/-- the encoder returns, and a new object reads what it wrote as the same payload -/
structure Delete.Reversible (d : Delete) : Prop where
  returns : d.marshal.returns
  back : ∀ data, d.marshal = .ok data →
    ∀ sp, Delete.unmarshal ⟨0, 0, 0, []⟩ ⟨data, sp⟩ = .ok d

/-- SPIs of less than four octets: the buffer is too small for `PutUint32` -/
theorem Delete.marshal_narrow {d : Delete} (hn : d.spis.length = d.numberOfSPI.toNat)
    (hne : d.spis ≠ []) (h4 : d.spiSize.toNat < 4) : d.marshal = .panic .indexOutOfRange := by
  obtain ⟨v, vs, hvs⟩ := List.exists_cons_of_ne_nil hne
  have hpos : 0 < d.spis.length := List.length_pos_iff.mpr hne
  rw [Delete.marshal, if_neg (not_not_intro hn), if_pos (by omega), hvs,
    putSPIs_narrow _ v vs (by rw [List.length_replicate]; exact h4)]
  rfl

/-- what is written with SPIs of four octets is read back -/
theorem Delete.unmarshal_written {d : Delete} (hn : d.spis.length = d.numberOfSPI.toNat)
    (h4 : d.spis = [] ∨ d.spiSize.toNat = 4) {data : Bytes} (hm : d.marshal = .ok data)
    (sp : Bytes) : Delete.unmarshal ⟨0, 0, 0, []⟩ ⟨data, sp⟩ = .ok d := by
  obtain ⟨_, _, rfl⟩ := Delete.marshal_eq_ok.mp hm
  obtain ⟨n1, n2, hnn, hnum⟩ := exists_octets_putUint16 d.numberOfSPI
  have hbody : (d.spis.flatMap fun v =>
      putUint32 v ++ List.replicate (d.spiSize.toNat - 4) (0 : UInt8)) = d.spis.flatMap putUint32 := by
    rcases h4 with h0 | h4
    · rw [h0]
      rfl
    · simp [h4]
  have hroom : ¬ (d.spis.flatMap putUint32).length < d.spiSize.toNat * d.numberOfSPI.toNat := by
    rw [length_flatMap_const d.spis putUint32 4 fun v => length_putUint32 v, ← hn]
    rcases h4 with h0 | h4
    · simp [h0]
    · simp [h4]
  rw [← hnum] at hroom
  have hread := Delete.unmarshal_words ⟨0, 0, 0, []⟩ d.protocolID hroom sp
  rw [hnum, UInt16.ofNat_toNat] at hread
  rw [hbody, hnn]
  exact hread

/-- **A Delete payload is encoded safely and reversibly** iff it is refused, has no SPI, or says that
its SPIs have four octets. -/
theorem Delete.reversible_iff (d : Delete) :
    d.Reversible ↔
      d.spis.length ≠ d.numberOfSPI.toNat ∨ d.spis = [] ∨ d.spiSize = 4 := by
  have hsize : d.spiSize = 4 ↔ d.spiSize.toNat = 4 := by
    rw [← UInt8.toNat_inj]
    rfl
  rw [hsize]
  by_cases hn : d.spis.length = d.numberOfSPI.toNat
  · rw [or_iff_right (not_not_intro hn)]
    constructor
    · intro h
      by_cases h0 : d.spis = []
      · exact Or.inl h0
      have h4 : 4 ≤ d.spiSize.toNat := by
        by_contra hlt
        have hret := h.returns
        rw [Delete.marshal_narrow hn h0 (by omega)] at hret
        exact hret
      have hm := Delete.marshal_eq_ok.mpr ⟨hn, Or.inr h4, rfl⟩
      exact Delete.size_of_survives hm (h.back _ hm [])
    · intro h
      have hwide : d.spis = [] ∨ 4 ≤ d.spiSize.toNat := h.imp_right fun h4 => le_of_eq h4.symm
      have hm := Delete.marshal_eq_ok.mpr ⟨hn, hwide, rfl⟩
      refine ⟨?_, fun data hdata sp => Delete.unmarshal_written hn h hdata sp⟩
      rw [hm]
      trivial
  · have hfail : d.marshal = fail "Number of SPI not correct" := by rw [Delete.marshal, if_pos hn]
    refine iff_of_true ⟨?_, fun data hdata => ?_⟩ (Or.inl hn)
    · rw [hfail]
      trivial
    · rw [hfail] at hdata
      exact absurd hdata (fail_ne_ok _ _)

/-- an SPI of two octets does not fit its buffer, one of eight octets is read as two -/
theorem Delete.not_reversible :
    buildDeletePayload [] 3 2 1 [7] = [.d ⟨3, 2, 1, [7]⟩] ∧
      Delete.marshal ⟨3, 2, 1, [7]⟩ = .panic .indexOutOfRange ∧
      buildDeletePayload [] 1 8 1 [7] = [.d ⟨1, 8, 1, [7]⟩] ∧
      Delete.marshal ⟨1, 8, 1, [7]⟩ = .ok [1, 8, 0, 1, 0, 0, 0, 7, 0, 0, 0, 0] ∧
      Delete.unmarshal ⟨0, 0, 0, []⟩ ⟨[1, 8, 0, 1, 0, 0, 0, 7, 0, 0, 0, 0], []⟩ =
        .ok ⟨1, 8, 1, [7, 0]⟩ :=
  ⟨rfl, by decide, rfl, by decide, by decide⟩

end Ike

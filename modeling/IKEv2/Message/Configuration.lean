import IKEv2.GoLang.Records
import IKEv2.Message.Types

/-!
# The Configuration payload (`message/payload_configuration.go`)

A configuration type, three reserved octets and a sequence of attributes: type, length, value.
The encoder clears the top bit of an attribute type, the decoder keeps it.  In the decoder the sum
`4+length` is a sum of `uint16` and wraps for a length of 65532 or more; the slice expression after
the value then panics.

* `attrRound_cons`                one attribute;
* `attrLoop_iff`                  the loop accepts exactly the concatenations of attributes;
* `attrLoop_within`               it reads nothing else, unless a length wraps;
* `Configuration.unmarshal_iff`   the payload;
* `Configuration.inside_iff`      when the decoder stays inside it.
-/

set_option linter.unusedVariables false

namespace Ike
open GoLang

def IndividualConfigurationAttribute.marshal (a : IndividualConfigurationAttribute) :
    Outcome Bytes :=
  if a.value.length > 0xFFFF then
    fail s!"Configuration: attribute value length exceeds uint16 limit: {a.value.length}"
  else .ok (putUint16 (a.type &&& 0x7fff) ++ putUint16 (UInt16.ofNat a.value.length) ++ a.value)

def Configuration.marshal (c : Configuration) : Outcome Bytes := do
  let attributes ← emitAll IndividualConfigurationAttribute.marshal c.configurationAttribute
  pure ([c.configurationType, 0, 0, 0] ++ attributes)

/-- one attribute; the loop variables are the data left and the attributes read so far -/
def Configuration.attrRound (s : Slice UInt8 × List IndividualConfigurationAttribute) :
    Outcome (Slice UInt8 × List IndividualConfigurationAttribute) :=
  if s.1.len < 4 then
    fail "ConfigurationAttribute: No sufficient bytes to decode next configuration attribute"
  else do
    let l ← s.1.slice 2 4
    let length ← uint16 l.data
    if s.1.len < (4 + length).toNat then fail "ConfigurationAttribute: TLV attribute length error"
    else do
      let t ← s.1.slice 0 2
      let type ← uint16 t.data
      let data ← s.1.sliceFrom 4
      let value ← data.sliceTo length.toNat
      let data ← data.sliceFrom length.toNat
      pure (data, s.2 ++ [{ type := type, value := value.data }])

def Configuration.unmarshal (c : Configuration) (b : Slice UInt8) : Outcome Configuration :=
  if b.len > 0 then
    if b.len ≤ 4 then fail "Configuration: No sufficient bytes to decode next configuration"
    else do
      let configurationType ← b.index 0
      let data ← b.sliceFrom 4
      let s ← peelLoop Configuration.attrRound (data, c.configurationAttribute)
      pure { configurationType := configurationType, configurationAttribute := s.2 }
  else pure c

/-! ## one attribute -/

/-- the octets of an attribute, with its type as it is -/
def attrOctets (a : IndividualConfigurationAttribute) : Bytes :=
  putUint16 a.type ++ putUint16 (UInt16.ofNat a.value.length) ++ a.value

theorem attrOctets_ne_nil (a : IndividualConfigurationAttribute) : attrOctets a ≠ [] := by
  obtain ⟨x, y, h, _⟩ := exists_octets_putUint16 a.type
  simp [attrOctets, h]

theorem length_attrOctets (a : IndividualConfigurationAttribute) :
    (attrOctets a).length = a.value.length + 4 := by
  simp only [attrOctets, List.length_append, length_putUint16]
  omega

theorem attrRound_cons (t1 t2 l1 l2 : UInt8) (r sp : Bytes)
    (acc : List IndividualConfigurationAttribute) {L : Nat} (hL : l1.toNat * 256 + l2.toNat = L) :
    Configuration.attrRound (⟨t1 :: t2 :: l1 :: l2 :: r, sp⟩, acc) =
      if L ≤ r.length then
        .ok (⟨r.drop L, sp⟩, acc ++ [⟨UInt16.ofNat (t1.toNat * 256 + t2.toNat), r.take L⟩])
      else if L < 65532 then fail "ConfigurationAttribute: TLV attribute length error"
      else .panic .sliceOutOfRange := by
  have h1 : l1.toNat < 256 := l1.toNat_lt
  have h2 : l2.toNat < 256 := l2.toNat_lt
  have hn : (UInt16.ofNat L).toNat = L := by
    rw [UInt16.toNat_ofNat_of_lt']
    show _ < 65536
    omega
  have h4 : (4 + UInt16.ofNat L).toNat = (4 + L) % 65536 := by rw [UInt16.toNat_add, hn]; rfl
  unfold Configuration.attrRound
  rw [if_neg (by simp)]
  dsimp only
  rw [Slice.slice_data _ (by omega) (by simp)]
  simp only [Outcome.ok_bind, List.take_succ_cons, List.take_zero, List.drop_succ_cons,
    List.drop_zero, uint16_pair, hL, h4, hn, Slice.len_mk, List.length_cons]
  rw [Slice.slice_data _ (by omega) (by simp), Slice.sliceFrom_data _ (by simp)]
  simp only [Outcome.ok_bind, List.take_succ_cons, List.take_zero, List.drop_succ_cons,
    List.drop_zero, uint16_pair]
  by_cases hle : L ≤ r.length
  · rw [if_neg (by omega), if_pos hle, Slice.sliceTo_data _ hle, Slice.sliceFrom_data _ hle]
    rfl
  · rw [if_neg hle]
    by_cases hw : L < 65532
    · rw [if_pos (by omega), if_pos hw]
    · have hfrom : (⟨r, sp⟩ : Slice UInt8).sliceFrom L = .panic .sliceOutOfRange :=
        Slice.slice_panic _ (show r.length < L by omega)
      rw [if_neg (by omega), if_neg hw, hfrom, Slice.sliceTo, Slice.slice]
      split <;> rfl

theorem attrRound_short (d sp : Bytes) (acc : List IndividualConfigurationAttribute)
    (h : d.length < 4) : Configuration.attrRound (⟨d, sp⟩, acc) =
      fail "ConfigurationAttribute: No sufficient bytes to decode next configuration attribute" := by
  rw [Configuration.attrRound, if_pos (show (⟨d, sp⟩ : Slice UInt8).len < 4 from h)]

/-- what the decoder asks of an attribute -/
def AttrOk (a : IndividualConfigurationAttribute) : Prop := a.value.length < 65536

theorem attrRound_reads :
    Reads Configuration.attrRound attrOctets (Collect AttrOk) := by
  intro d sp acc s' hd
  constructor
  · intro h
    rcases header_cases d with h0 | ⟨_, h4⟩ | ⟨t1, t2, l1, l2, r, rfl⟩
    · exact absurd h0 hd
    · rw [attrRound_short _ _ _ h4] at h
      exact absurd h (fail_ne_ok _ _)
    · have h1 : l1.toNat < 256 := l1.toNat_lt
      have h2 : l2.toNat < 256 := l2.toNat_lt
      obtain ⟨L, hL⟩ : ∃ L, l1.toNat * 256 + l2.toNat = L := ⟨_, rfl⟩
      rw [attrRound_cons t1 t2 l1 l2 r sp acc hL] at h
      by_cases hle : L ≤ r.length
      · rw [if_pos hle] at h
        injection h with h
        have ht : (r.take L).length = L := by rw [List.length_take]; omega
        have hoct : attrOctets ⟨UInt16.ofNat (t1.toNat * 256 + t2.toNat), r.take L⟩ =
            t1 :: t2 :: l1 :: l2 :: r.take L := by
          rw [attrOctets, ht, putUint16_ofOctets, ← hL, putUint16_ofOctets]
          rfl
        refine ⟨_, r.drop L, _, ?_, ⟨?_, rfl⟩, h.symm⟩
        · rw [hoct]
          simp
        · show (r.take L).length < 65536
          omega
      · rw [if_neg hle] at h
        split at h
        · exact absurd h (fail_ne_ok _ _)
        · exact absurd h (by simp)
  · rintro ⟨a, rest, acc', rfl, ⟨hok, rfl⟩, rfl⟩
    have hok' : a.value.length < 65536 := hok
    obtain ⟨t1, t2, ht, htn⟩ := exists_octets_putUint16 a.type
    obtain ⟨l1, l2, hl, hln⟩ := exists_octets_putUint16 (UInt16.ofNat a.value.length)
    have hn : (UInt16.ofNat a.value.length).toNat = a.value.length :=
      UInt16.toNat_ofNat_of_lt' hok'
    rw [hn] at hln
    have hd' : attrOctets a ++ rest = t1 :: t2 :: l1 :: l2 :: (a.value ++ rest) := by
      rw [attrOctets, ht, hl]; simp
    rw [hd', attrRound_cons _ _ _ _ _ _ _ hln, if_pos (by simp), List.take_left, List.drop_left, htn,
      UInt16.ofNat_toNat]

theorem attrLoop_iff {d sp : Bytes} {acc : List IndividualConfigurationAttribute}
    {r : Slice UInt8 × List IndividualConfigurationAttribute} :
    peelLoop Configuration.attrRound (⟨d, sp⟩, acc) = .ok r ↔
      ∃ as, (∀ a ∈ as, AttrOk a) ∧ d = as.flatMap attrOctets ∧ r = (⟨[], sp⟩, acc ++ as) := by
  rw [peelLoop_iff attrRound_reads (fun _ a _ _ _ _ => attrOctets_ne_nil a)]
  constructor
  · rintro ⟨as, acc', hp, hd, rfl⟩
    obtain ⟨hok, rfl⟩ := peel_collect_iff.mp hp
    exact ⟨as, hok, hd, rfl⟩
  · rintro ⟨as, hok, hd, rfl⟩
    exact ⟨as, _, peel_collect_iff.mpr ⟨hok, rfl⟩, hd, rfl⟩

/-! ## what the loop reads -/

/-- behind whole attributes an attribute header whose length wraps in `4+length`, with fewer octets
behind it than the length says -/
def AttrOverrun (d : Bytes) : Prop :=
  ∃ (as : List IndividualConfigurationAttribute) (t1 t2 l1 l2 : UInt8) (r : Bytes),
    (∀ a ∈ as, AttrOk a) ∧
    d = as.flatMap attrOctets ++ t1 :: t2 :: l1 :: l2 :: r ∧
    65532 ≤ l1.toNat * 256 + l2.toNat ∧ r.length < l1.toNat * 256 + l2.toNat

theorem attrOverrun_append {a : IndividualConfigurationAttribute} (ha : AttrOk a) {d : Bytes}
    (h : AttrOverrun d) : AttrOverrun (attrOctets a ++ d) := by
  obtain ⟨as, t1, t2, l1, l2, r, has, rfl, hL, hr⟩ := h
  refine ⟨a :: as, t1, t2, l1, l2, r, List.forall_mem_cons.mpr ⟨ha, has⟩, ?_, hL, hr⟩
  rw [List.flatMap_cons, List.append_assoc]

/-- the data as the loop sees them: at their end, a whole attribute, or something cut off -/
theorem attr_induct {P : Bytes → Prop} (nil : P [])
    (short : ∀ d, d ≠ [] → d.length < 4 → P d)
    (cut : ∀ t1 t2 l1 l2 r, r.length < l1.toNat * 256 + l2.toNat → P (t1 :: t2 :: l1 :: l2 :: r))
    (attr : ∀ a d, AttrOk a → P d → P (attrOctets a ++ d)) (d : Bytes) : P d := by
  induction hn : d.length using Nat.strong_induction_on generalizing d with
  | _ n ih =>
    rcases header_cases d with rfl | ⟨h0, h4⟩ | ⟨t1, t2, l1, l2, r, rfl⟩
    · exact nil
    · exact short d h0 h4
    by_cases hr : r.length < l1.toNat * 256 + l2.toNat
    · exact cut t1 t2 l1 l2 r hr
    · have hround := attrRound_cons t1 t2 l1 l2 r [] [] rfl
      rw [if_pos (by omega)] at hround
      obtain ⟨a, rest, _, hd, hs, _⟩ := (attrRound_reads _ [] [] _ (by simp)).mp hround
      rw [hd] at hn ⊢
      rw [List.length_append, length_attrOctets] at hn
      exact attr a rest hs.1 (ih rest.length (by omega) rest rfl)

theorem attrLoop_nil (sp : Bytes) (acc : List IndividualConfigurationAttribute) :
    peelLoop Configuration.attrRound (⟨[], sp⟩, acc) = .ok (⟨[], sp⟩, acc) :=
  peelLoop_nil attrRound_reads (fun _ a _ _ _ _ => attrOctets_ne_nil a) sp acc

theorem attrLoop_step {d : Bytes} (h : d ≠ []) (sp : Bytes)
    (acc : List IndividualConfigurationAttribute) :
    peelLoop Configuration.attrRound (⟨d, sp⟩, acc) =
      Configuration.attrRound (⟨d, sp⟩, acc) >>= peelLoop Configuration.attrRound :=
  peelLoop_cons attrRound_reads (fun _ a _ _ _ _ => attrOctets_ne_nil a) _
    (List.length_pos_iff.mpr h)

theorem attrLoop_attr {a : IndividualConfigurationAttribute} (ha : AttrOk a) (d sp : Bytes)
    (acc : List IndividualConfigurationAttribute) :
    peelLoop Configuration.attrRound (⟨attrOctets a ++ d, sp⟩, acc) =
      peelLoop Configuration.attrRound (⟨d, sp⟩, acc ++ [a]) := by
  have hne : attrOctets a ++ d ≠ [] :=
    fun h => attrOctets_ne_nil a (List.append_eq_nil_iff.mp h).1
  rw [attrLoop_step hne,
    (attrRound_reads _ sp acc _ hne).mpr ⟨a, d, acc ++ [a], rfl, ⟨ha, rfl⟩, rfl⟩, Outcome.ok_bind]

/-- the loop panics where the length wraps -/
theorem attrLoop_overrun {d : Bytes} (h : AttrOverrun d) (sp : Bytes)
    (acc : List IndividualConfigurationAttribute) :
    peelLoop Configuration.attrRound (⟨d, sp⟩, acc) = .panic .sliceOutOfRange := by
  obtain ⟨as, t1, t2, l1, l2, r, has, rfl, hL, hr⟩ := h
  induction as generalizing acc with
  | nil =>
    rw [List.flatMap_nil, List.nil_append, attrLoop_step (by simp),
      attrRound_cons t1 t2 l1 l2 r sp acc rfl, if_neg (by omega), if_neg (by omega)]
    rfl
  | cons a as ih =>
    rw [List.flatMap_cons, List.append_assoc, attrLoop_attr (has a (List.mem_cons_self ..))]
    exact ih _ fun b hb => has b (List.mem_cons_of_mem _ hb)

/-- elsewhere it reads nothing but its data -/
theorem attrLoop_within {d : Bytes} (h : ¬ AttrOverrun d)
    (acc : List IndividualConfigurationAttribute) :
    Within (fun s => Prod.snd <$> peelLoop Configuration.attrRound (s, acc)) d := by
  induction d using attr_induct generalizing acc with
  | nil => exact .of_ok fun sp => by rw [attrLoop_nil]; rfl
  | short d h0 h4 =>
    refine .of_fail
      "ConfigurationAttribute: No sufficient bytes to decode next configuration attribute" fun sp => ?_
    rw [attrLoop_step h0, attrRound_short d sp acc h4]
    rfl
  | cut t1 t2 l1 l2 r hr =>
    have hL : l1.toNat * 256 + l2.toNat < 65532 := by
      by_contra hL
      exact h ⟨[], t1, t2, l1, l2, r, by simp, rfl, by omega, hr⟩
    refine .of_fail "ConfigurationAttribute: TLV attribute length error" fun sp => ?_
    rw [attrLoop_step (by simp), attrRound_cons t1 t2 l1 l2 r sp acc rfl, if_neg (by omega),
      if_pos hL]
    rfl
  | attr a d ha ih =>
    exact .of_rest (ih (fun hd => h (attrOverrun_append ha hd)) (acc ++ [a]))
      fun sp => by rw [attrLoop_attr ha]

/-! ## the payload -/

theorem Configuration.unmarshal_short (c : Configuration) {d : Bytes} (h0 : d ≠ [])
    (h4 : d.length ≤ 4) (sp : Bytes) : c.unmarshal ⟨d, sp⟩ =
      fail "Configuration: No sufficient bytes to decode next configuration" := by
  have hp : 0 < d.length := List.length_pos_iff.mpr h0
  rw [Configuration.unmarshal, if_pos (show (⟨d, sp⟩ : Slice UInt8).len > 0 from hp),
    if_pos (show (⟨d, sp⟩ : Slice UInt8).len ≤ 4 from h4)]

theorem Configuration.unmarshal_cons (c : Configuration) (t r1 r2 r3 : UInt8) {l : Bytes}
    (hl : l ≠ []) (sp : Bytes) : c.unmarshal ⟨t :: r1 :: r2 :: r3 :: l, sp⟩ =
      (fun as => ⟨t, as⟩) <$> (Prod.snd <$>
        peelLoop Configuration.attrRound (⟨l, sp⟩, c.configurationAttribute)) := by
  have hp : 0 < l.length := List.length_pos_iff.mpr hl
  rw [Configuration.unmarshal, if_pos (by simp),
    if_neg (by simp only [Slice.len_mk, List.length_cons]; omega), Slice.index_mk_zero,
    Slice.sliceFrom_data _ (by simp)]
  simp only [Outcome.ok_bind, List.drop_succ_cons, List.drop_zero]
  cases peelLoop Configuration.attrRound (⟨l, sp⟩, c.configurationAttribute) <;> rfl

theorem flatMap_attrOctets_eq_nil {as : List IndividualConfigurationAttribute} :
    as.flatMap attrOctets = [] ↔ as = [] := by
  cases as with
  | nil => simp
  | cons a as => simp [attrOctets_ne_nil a]

/-- **Accepted configuration payloads**: nothing, or a header and one or more attributes. -/
theorem Configuration.unmarshal_iff (c c' : Configuration) (d sp : Bytes) :
    c.unmarshal ⟨d, sp⟩ = .ok c' ↔
      (d = [] ∧ c' = c) ∨
      ∃ t r1 r2 r3 as, d = t :: r1 :: r2 :: r3 :: as.flatMap attrOctets ∧ as ≠ [] ∧
        (∀ a ∈ as, AttrOk a) ∧ c' = ⟨t, c.configurationAttribute ++ as⟩ := by
  have hshort : ∀ l : Bytes, l ≠ [] → l.length ≤ 4 →
      (c.unmarshal ⟨l, sp⟩ = .ok c' ↔ (l = [] ∧ c' = c) ∨
        ∃ t r1 r2 r3 as, l = t :: r1 :: r2 :: r3 :: as.flatMap attrOctets ∧ as ≠ [] ∧
          (∀ a ∈ as, AttrOk a) ∧ c' = ⟨t, c.configurationAttribute ++ as⟩) := by
    intro l h0 h4
    rw [Configuration.unmarshal_short c h0 h4]
    constructor
    · intro h
      exact absurd h (fail_ne_ok _ _)
    · intro h
      rcases h with ⟨h, _⟩ | ⟨t, r1, r2, r3, as, rfl, hne, _⟩
      · exact absurd h h0
      · have has : 0 < (as.flatMap attrOctets).length :=
          List.length_pos_iff.mpr fun h => hne (flatMap_attrOctets_eq_nil.mp h)
        simp only [List.length_cons] at h4
        omega
  rcases header_cases d with rfl | ⟨h0, h4⟩ | ⟨t, r1, r2, r3, r, rfl⟩
  · rw [Configuration.unmarshal, if_neg (by simp)]
    simp [eq_comm]
  · exact hshort _ h0 (by omega)
  · by_cases hr : r = []
    · exact hshort _ (by simp) (by simp [hr])
    rw [Configuration.unmarshal_cons c t r1 r2 r3 hr, Outcome.map_eq_ok]
    constructor
    · intro h
      obtain ⟨_, h, rfl⟩ := h
      obtain ⟨s, hs, rfl⟩ := Outcome.map_eq_ok.mp h
      obtain ⟨as, hok, rfl, rfl⟩ := attrLoop_iff.mp hs
      exact Or.inr ⟨t, r1, r2, r3, as, rfl, fun h0 => hr (flatMap_attrOctets_eq_nil.mpr h0), hok, rfl⟩
    · intro h
      rcases h with ⟨h, _⟩ | ⟨t', x, y, z, as, h, hne, hok, rfl⟩
      · exact absurd h (by simp)
      · simp only [List.cons.injEq] at h
        obtain ⟨rfl, rfl, rfl, rfl, rfl⟩ := h
        exact ⟨_, Outcome.map_eq_ok.mpr ⟨_, attrLoop_iff.mpr ⟨as, hok, rfl, rfl⟩, rfl⟩, rfl⟩

/-- the decoder returns, reads nothing but `b`, and the attributes it makes of `b` are the octets
of `b` behind the header, in their order -/
structure Configuration.Inside (b : Bytes) : Prop where
  within : ∀ c : Configuration, Within c.unmarshal b
  tiled : ∀ (c c' : Configuration) (sp : Bytes), c.unmarshal ⟨b, sp⟩ = .ok c' → b ≠ [] →
    ∃ as, c'.configurationAttribute = c.configurationAttribute ++ as ∧
      b.drop 4 = as.flatMap attrOctets ∧ ∀ a ∈ as, a.value.length < 65536

theorem Configuration.within_of_not_overrun (c : Configuration) {b : Bytes}
    (h : ¬ AttrOverrun (b.drop 4)) : Within c.unmarshal b := by
  rcases header_cases b with rfl | ⟨h0, h4⟩ | ⟨t, r1, r2, r3, l, rfl⟩
  · exact .of_ok fun sp => rfl
  · exact .of_fail _ (c.unmarshal_short h0 (by omega))
  · by_cases hl : l = []
    · exact .of_fail _ (c.unmarshal_short (by simp) (by simp [hl]))
    · exact .map (fun as => ⟨t, as⟩) (attrLoop_within h c.configurationAttribute)
        (c.unmarshal_cons t r1 r2 r3 hl)

theorem Configuration.unmarshal_overrun (c : Configuration) {b : Bytes}
    (h : AttrOverrun (b.drop 4)) (sp : Bytes) :
    c.unmarshal ⟨b, sp⟩ = .panic .sliceOutOfRange := by
  have hsome : b.drop 4 ≠ [] := by
    obtain ⟨as, t1, t2, l1, l2, r, _, hd, _⟩ := h
    rw [hd]
    simp
  rcases header_cases b with rfl | ⟨_, h4⟩ | ⟨t, r1, r2, r3, l, rfl⟩
  · exact absurd rfl hsome
  · exact absurd (List.drop_of_length_le (by omega)) hsome
  have hne : l ≠ [] := hsome
  have hl : AttrOverrun l := h
  rw [Configuration.unmarshal_cons c t r1 r2 r3 hne, attrLoop_overrun hl]
  rfl

/-- **The configuration decoder stays inside its payload** unless a length field makes the sum
`4+length` wrap and promises more octets than there are. -/
theorem Configuration.inside_iff (b : Bytes) :
    Configuration.Inside b ↔ ¬ AttrOverrun (b.drop 4) := by
  constructor
  · intro h hover
    have hret := (h.within ⟨0, []⟩).returns []
    rw [Configuration.unmarshal_overrun _ hover] at hret
    exact hret
  · intro h
    refine ⟨fun c => c.within_of_not_overrun h, ?_⟩
    intro c c' sp hok hne
    rcases (Configuration.unmarshal_iff ..).mp hok with ⟨h0, _⟩ | ⟨t, r1, r2, r3, as, rfl, _, has, rfl⟩
    · exact absurd h0 hne
    · exact ⟨as, rfl, rfl, has⟩

/-- the length 65535 with nothing behind it: `4+length` is 3 -/
theorem Configuration.length_wraps :
    (∀ sp, Configuration.unmarshal ⟨0, []⟩ ⟨[1, 0, 0, 0, 0, 1, 0xff, 0xff], sp⟩ =
      .panic .sliceOutOfRange) ∧ ¬ Configuration.Inside [1, 0, 0, 0, 0, 1, 0xff, 0xff] := by
  have hover : AttrOverrun [0, 1, 0xff, 0xff] :=
    ⟨[], 0, 1, 0xff, 0xff, [], by simp, rfl, by decide, by decide⟩
  have hpanic := fun sp => Configuration.unmarshal_overrun ⟨0, []⟩
    (b := [1, 0, 0, 0, 0, 1, 0xff, 0xff]) hover sp
  refine ⟨hpanic, fun h => ?_⟩
  have hret := (h.within ⟨0, []⟩).returns []
  rw [hpanic] at hret
  exact hret

end Ike

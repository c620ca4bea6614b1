import IKEv2.GoLang.Records
import IKEv2.Message.Types

/-!
# Traffic selector payloads (`message/payload_trafficselector*.go`)

TSi and TSr have the same layout and the same selectors: a count, three reserved octets and that
many selectors, each an IPv4 or an IPv6 address range.  The decoder stops after the announced
number of selectors, whatever follows them.  (The encoders test buffers they have just made for
being too short; these tests never fire and are left out.)

The code of the two payloads is written twice.  The decoders and the cases for one selector are the
same line for line and stand here once; the encoders arrange their checks differently, and each has
its own definition.

* `selectorUnmarshal_iff`    one selector: accepted iff the data begin with the octets of a valid
                             selector;
* `selectorsUnmarshal_iff`   the loop;
* `tsMarshal_iff`            what the encoders accept;
* `tsUnmarshal_iff`          what the decoders accept;
* `tsUnmarshal_within`       they read nothing behind the payload;
* `trafficSelectors_exact`   encoder and decoder fit, and the two copies of them agree.
-/

set_option linter.unusedVariables false

namespace Ike
open GoLang

def tsIPv4AddrRange : UInt8 := 7
def tsIPv6AddrRange : UInt8 := 8

/-! ## the encoders -/

/-- an address range with addresses of `addrLen` octets -/
def rangeMarshal (name : String) (addrLen : Nat) (ts : IndividualTrafficSelector) :
    Outcome Bytes :=
  if ts.startAddress.length ≠ addrLen then
    fail s!"TrafficSelector: Start {name} address length is not correct"
  else if ts.endAddress.length ≠ addrLen then
    fail s!"TrafficSelector: End {name} address length is not correct"
  else
    let dataLen := 8 + ts.startAddress.length + ts.endAddress.length
    if dataLen > 0xFFFF then
      fail s!"TrafficSelector: individualTrafficSelectorData length exceeds uint16 maximum value: {dataLen}"
    else .ok ([ts.tsType, ts.ipProtocolID] ++ putUint16 (UInt16.ofNat dataLen)
      ++ putUint16 ts.startPort ++ putUint16 ts.endPort ++ ts.startAddress ++ ts.endAddress)

def IndividualTrafficSelector.marshal (ts : IndividualTrafficSelector) : Outcome Bytes :=
  if ts.tsType = tsIPv4AddrRange then rangeMarshal "IPv4" 4 ts
  else if ts.tsType = tsIPv6AddrRange then rangeMarshal "IPv6" 16 ts
  else fail "TrafficSelector: Unsupported traffic selector type"

/-- `tooMany` is the text for more than 255 selectors -/
def tsMarshal (tooMany : String) (tss : List IndividualTrafficSelector) : Outcome Bytes :=
  if tss.length = 0 then
    fail "TrafficSelector: Contains no traffic selector for marshaling message"
  else if tss.length > 0xFF then fail s!"TrafficSelector: {tooMany}: {tss.length}"
  else do
    let selectors ← emitAll IndividualTrafficSelector.marshal tss
    pure ([UInt8.ofNat tss.length, 0, 0, 0] ++ selectors)

def TrafficSelectorInitiator.marshal (p : TrafficSelectorInitiator) : Outcome Bytes :=
  tsMarshal "too many traffic selectors" p.trafficSelectors

/-- the second copy: a list without selectors is the last case, not the first -/
def TrafficSelectorResponder.marshal (p : TrafficSelectorResponder) : Outcome Bytes :=
  if p.trafficSelectors.length > 0 then
    let selectorCount := p.trafficSelectors.length
    if selectorCount > 0xFF then
      fail s!"TrafficSelector: invalid traffic selectors count: {selectorCount}"
    else do
      let selectors ← emitAll IndividualTrafficSelector.marshal p.trafficSelectors
      pure ([UInt8.ofNat selectorCount, 0, 0, 0] ++ selectors)
  else fail "TrafficSelector: Contains no traffic selector for marshaling message"

theorem TrafficSelectorResponder.marshal_eq (p : TrafficSelectorResponder) :
    p.marshal = tsMarshal "invalid traffic selectors count" p.trafficSelectors := by
  unfold TrafficSelectorResponder.marshal tsMarshal
  by_cases h0 : p.trafficSelectors.length = 0
  · rw [if_pos h0, if_neg (by omega)]
  · rw [if_neg h0, if_pos (by omega)]
    rfl

/-! ## the decoders -/

/-- the selector at the front of `b`, and `b` behind it -/
def rangeUnmarshal (text : String) (size addrLen : Nat) (b : Slice UInt8) :
    Outcome (IndividualTrafficSelector × Slice UInt8) := do
  let l ← b.slice 2 4
  let selectorLength ← uint16 l.data
  if selectorLength.toNat ≠ size then fail text
  else if b.len < selectorLength.toNat then
    fail "TrafficSelector: No sufficient bytes to decode next individual traffic selector"
  else do
    let tsType ← b.index 0
    let ipProtocolID ← b.index 1
    let sp ← b.slice 4 6
    let startPort ← uint16 sp.data
    let ep ← b.slice 6 8
    let endPort ← uint16 ep.data
    let startAddress ← b.slice 8 (8 + addrLen)
    let endAddress ← b.slice (8 + addrLen) size
    let rest ← b.sliceFrom size
    pure ({ tsType := tsType, ipProtocolID := ipProtocolID, startPort := startPort,
            endPort := endPort, startAddress := startAddress.data,
            endAddress := endAddress.data }, rest)

def selectorUnmarshal (b : Slice UInt8) : Outcome (IndividualTrafficSelector × Slice UInt8) :=
  if b.len < 4 then
    fail "TrafficSelector: No sufficient bytes to decode next individual traffic selector length in header"
  else do
    let trafficSelectorType ← b.index 0
    if trafficSelectorType = tsIPv4AddrRange then
      rangeUnmarshal
        "TrafficSelector: A TS_IPV4_ADDR_RANGE type traffic selector should has length 16 bytes" 16 4 b
    else if trafficSelectorType = tsIPv6AddrRange then
      rangeUnmarshal
        "TrafficSelector: A TS_IPV6_ADDR_RANGE type traffic selector should has length 40 bytes" 40 16 b
    else fail "TrafficSelector: Unsupported traffic selector type"

/-- `for ; numberOfSPI > 0; numberOfSPI--` -/
def selectorsUnmarshal : Nat → Slice UInt8 → List IndividualTrafficSelector →
    Outcome (List IndividualTrafficSelector)
  | 0, _, acc => .ok acc
  | n+1, b, acc => do
    let r ← selectorUnmarshal b
    selectorsUnmarshal n r.2 (acc ++ [r.1])

def tsUnmarshal (old : List IndividualTrafficSelector) (b : Slice UInt8) :
    Outcome (List IndividualTrafficSelector) :=
  if b.len > 0 then
    if b.len < 4 then
      fail "TrafficSelector: No sufficient bytes to get number of traffic selector in header"
    else do
      let numberOfSPI ← b.index 0
      let b ← b.sliceFrom 4
      selectorsUnmarshal numberOfSPI.toNat b old
  else pure old

def TrafficSelectorInitiator.unmarshal (p : TrafficSelectorInitiator) (b : Slice UInt8) :
    Outcome TrafficSelectorInitiator :=
  (fun tss => ⟨tss⟩) <$> tsUnmarshal p.trafficSelectors b

def TrafficSelectorResponder.unmarshal (p : TrafficSelectorResponder) (b : Slice UInt8) :
    Outcome TrafficSelectorResponder :=
  (fun tss => ⟨tss⟩) <$> tsUnmarshal p.trafficSelectors b

/-! ## valid selectors -/

/-- the octets of a selector -/
def selectorOctets (ts : IndividualTrafficSelector) : Bytes :=
  [ts.tsType, ts.ipProtocolID]
    ++ putUint16 (UInt16.ofNat (8 + ts.startAddress.length + ts.endAddress.length))
    ++ putUint16 ts.startPort ++ putUint16 ts.endPort ++ ts.startAddress ++ ts.endAddress

def HasAddrLen (n : Nat) (ts : IndividualTrafficSelector) : Prop :=
  ts.startAddress.length = n ∧ ts.endAddress.length = n

def SelectorOk (ts : IndividualTrafficSelector) : Prop :=
  ts.tsType = tsIPv4AddrRange ∧ HasAddrLen 4 ts ∨ ts.tsType = tsIPv6AddrRange ∧ HasAddrLen 16 ts

theorem rangeMarshal_iff {name : String} {n : Nat} {ts : IndividualTrafficSelector} {d : Bytes}
    (hn : n ≤ 16) : rangeMarshal name n ts = .ok d ↔ HasAddrLen n ts ∧ d = selectorOctets ts := by
  unfold rangeMarshal HasAddrLen
  by_cases h1 : ts.startAddress.length = n
  · rw [if_neg (not_not_intro h1)]
    by_cases h2 : ts.endAddress.length = n
    · have h16 : ¬ 8 + ts.startAddress.length + ts.endAddress.length > 0xFFFF := by omega
      rw [if_neg (not_not_intro h2)]
      show (if _ then _ else Outcome.ok (selectorOctets ts)) = .ok d ↔ _
      rw [if_neg h16, Outcome.ok.injEq, eq_comm]
      exact ⟨fun h => ⟨⟨h1, h2⟩, h⟩, fun h => h.2⟩
    · rw [if_pos h2]
      exact ⟨fun h => absurd h (fail_ne_ok _ _), fun h => absurd h.1.2 h2⟩
  · rw [if_pos h1]
    exact ⟨fun h => absurd h (fail_ne_ok _ _), fun h => absurd h.1.1 h1⟩

theorem marshal_selector_iff {ts : IndividualTrafficSelector} {d : Bytes} :
    ts.marshal = .ok d ↔ SelectorOk ts ∧ d = selectorOctets ts := by
  unfold IndividualTrafficSelector.marshal SelectorOk
  by_cases h4 : ts.tsType = tsIPv4AddrRange
  · have h6 : ts.tsType ≠ tsIPv6AddrRange := by rw [h4]; decide
    rw [if_pos h4, rangeMarshal_iff (by omega), or_iff_left fun h => h6 h.1, and_iff_right h4]
  · by_cases h6 : ts.tsType = tsIPv6AddrRange
    · rw [if_neg h4, if_pos h6, rangeMarshal_iff (by omega), or_iff_right fun h => h4 h.1,
        and_iff_right h6]
    · rw [if_neg h4, if_neg h6]
      simp [h4, h6]

/-- **What the encoders accept**: between 1 and 255 valid selectors. -/
theorem tsMarshal_iff {t : String} {tss : List IndividualTrafficSelector} {d : Bytes} :
    tsMarshal t tss = .ok d ↔ (tss ≠ [] ∧ tss.length ≤ 255 ∧ ∀ ts ∈ tss, SelectorOk ts) ∧
      d = [UInt8.ofNat tss.length, 0, 0, 0] ++ tss.flatMap selectorOctets := by
  unfold tsMarshal
  by_cases h0 : tss.length = 0
  · rw [if_pos h0]
    exact ⟨fun h => absurd h (fail_ne_ok _ _),
      fun h => absurd (List.length_eq_zero_iff.mp h0) h.1.1⟩
  rw [if_neg h0]
  by_cases h255 : tss.length > 0xFF
  · rw [if_pos h255]
    exact ⟨fun h => absurd h (fail_ne_ok _ _), fun h => absurd h.1.2.1 (by omega)⟩
  rw [if_neg h255]
  have hne : tss ≠ [] := fun h => h0 (by rw [h]; rfl)
  have hall : (∀ ts ∈ tss, SelectorOk ts) →
      emitAll IndividualTrafficSelector.marshal tss = .ok (tss.flatMap selectorOctets) :=
    fun hok => emitAll_ok fun ts hts => marshal_selector_iff.mpr ⟨hok ts hts, rfl⟩
  constructor
  · intro h
    obtain ⟨x, hx, hd⟩ := Outcome.bind_eq_ok.mp h
    have hok : ∀ ts ∈ tss, SelectorOk ts := by
      intro ts hts
      obtain ⟨y, hy⟩ := emitAll_mem hx hts
      exact (marshal_selector_iff.mp hy).1
    rw [hall hok] at h
    exact ⟨⟨hne, by omega, hok⟩, (Outcome.ok.inj h).symm⟩
  · intro h
    rw [hall h.1.2.2, h.2]
    rfl

/-! ## one selector -/

theorem rangeUnmarshal_cons (text : String) (n : Nat) (t p l1 l2 s1 s2 e1 e2 : UInt8)
    (r sp : Bytes) (hn : n ≤ 16) :
    rangeUnmarshal text (8 + n + n) n ⟨t :: p :: l1 :: l2 :: s1 :: s2 :: e1 :: e2 :: r, sp⟩ =
      if l1.toNat * 256 + l2.toNat ≠ 8 + n + n then fail text
      else if r.length < n + n then
        fail "TrafficSelector: No sufficient bytes to decode next individual traffic selector"
      else .ok (⟨t, p, UInt16.ofNat (s1.toNat * 256 + s2.toNat),
        UInt16.ofNat (e1.toNat * 256 + e2.toNat), r.take n, (r.drop n).take n⟩,
        ⟨r.drop (n + n), sp⟩) := by
  have h1 : l1.toNat < 256 := l1.toNat_lt
  have h2 : l2.toNat < 256 := l2.toNat_lt
  have hL : (UInt16.ofNat (l1.toNat * 256 + l2.toNat)).toNat = l1.toNat * 256 + l2.toNat := by
    rw [UInt16.toNat_ofNat_of_lt']
    show _ < 65536
    omega
  unfold rangeUnmarshal
  rw [Slice.slice_data _ (by omega) (by simp)]
  simp only [Outcome.ok_bind, List.take_succ_cons, List.take_zero, List.drop_succ_cons,
    List.drop_zero, uint16_pair, hL]
  by_cases hne : l1.toNat * 256 + l2.toNat = 8 + n + n
  · rw [if_neg (not_not_intro hne), if_neg (not_not_intro hne), hne]
    have hlen : (⟨t :: p :: l1 :: l2 :: s1 :: s2 :: e1 :: e2 :: r, sp⟩ : Slice UInt8).len <
        8 + n + n ↔ r.length < n + n := by
      simp only [Slice.len_mk, List.length_cons]
      omega
    by_cases hlt : r.length < n + n
    · rw [if_pos (hlen.mpr hlt), if_pos hlt]
    · have ha : 8 + n = n + 8 := by omega
      have hb : 8 + n + n = n + n + 8 := by omega
      rw [if_neg (fun h => hlt (hlen.mp h)), if_neg hlt, Slice.index_mk_zero, Slice.index_mk_succ, Slice.index_mk_zero,
        Slice.slice_data _ (by omega) (by simp), Slice.slice_data _ (by omega) (by simp),
        Slice.slice_data _ (by omega) (by simp; omega),
        Slice.slice_data _ (by omega) (by simp; omega),
        Slice.sliceFrom_data _ (by simp; omega), hb, ha]
      simp [uint16_pair, List.take_drop]
  · rw [if_pos hne, if_pos hne]

/-- data that are too short for the selector are refused -/
theorem rangeUnmarshal_short (text : String) {size : Nat} (n : Nat) {d : Bytes} (h4 : 4 ≤ d.length)
    (h : d.length < size) : ∃ t, ∀ sp, rangeUnmarshal text size n ⟨d, sp⟩ = fail t := by
  rcases header_cases d with rfl | ⟨_, hlt⟩ | ⟨x, p, l1, l2, r, rfl⟩
  · exact absurd h4 (by simp)
  · omega
  have hL : ∀ sp, rangeUnmarshal text size n ⟨x :: p :: l1 :: l2 :: r, sp⟩ =
      if (UInt16.ofNat (l1.toNat * 256 + l2.toNat)).toNat ≠ size then fail text
      else fail "TrafficSelector: No sufficient bytes to decode next individual traffic selector" := by
    intro sp
    unfold rangeUnmarshal
    rw [Slice.slice_data _ (by omega) (by simp)]
    simp only [Outcome.ok_bind, List.take_succ_cons, List.take_zero, List.drop_succ_cons,
      List.drop_zero, uint16_pair]
    by_cases hs : (UInt16.ofNat (l1.toNat * 256 + l2.toNat)).toNat = size
    · rw [if_neg (not_not_intro hs), if_neg (not_not_intro hs), if_pos (by rw [hs]; exact h)]
    · rw [if_pos hs, if_pos hs]
  by_cases hs : (UInt16.ofNat (l1.toNat * 256 + l2.toNat)).toNat = size
  · exact ⟨_, fun sp => (hL sp).trans (if_neg (not_not_intro hs))⟩
  · exact ⟨_, fun sp => (hL sp).trans (if_pos hs)⟩

theorem selectorOctets_append {ts : IndividualTrafficSelector} {n : Nat} (h : HasAddrLen n ts)
    (hn : n ≤ 16) (rest : Bytes) :
    ∃ l1 l2 s1 s2 e1 e2, selectorOctets ts ++ rest =
        ts.tsType :: ts.ipProtocolID :: l1 :: l2 :: s1 :: s2 :: e1 :: e2 ::
          (ts.startAddress ++ (ts.endAddress ++ rest)) ∧
      l1.toNat * 256 + l2.toNat = 8 + n + n ∧ s1.toNat * 256 + s2.toNat = ts.startPort.toNat ∧
      e1.toNat * 256 + e2.toNat = ts.endPort.toNat := by
  obtain ⟨h1, h2⟩ := h
  obtain ⟨l1, l2, hl, hln⟩ := exists_octets_putUint16
    (UInt16.ofNat (8 + ts.startAddress.length + ts.endAddress.length))
  obtain ⟨s1, s2, hs, hsn⟩ := exists_octets_putUint16 ts.startPort
  obtain ⟨e1, e2, he, hen⟩ := exists_octets_putUint16 ts.endPort
  refine ⟨l1, l2, s1, s2, e1, e2, ?_, ?_, hsn, hen⟩
  · rw [selectorOctets, hl, hs, he]
    simp
  · rw [hln, h1, h2, UInt16.toNat_ofNat_of_lt']
    show _ < 65536
    omega

theorem rangeUnmarshal_iff {text : String} {n : Nat} (hn : n ≤ 16) {d sp : Bytes}
    (h4 : 4 ≤ d.length) {ts : IndividualTrafficSelector} {s : Slice UInt8} :
    rangeUnmarshal text (8 + n + n) n ⟨d, sp⟩ = .ok (ts, s) ↔
      HasAddrLen n ts ∧ d = selectorOctets ts ++ s.data ∧ s.spare = sp := by
  constructor
  · intro h
    by_cases hs : d.length < 8 + n + n
    · obtain ⟨t, ht⟩ := rangeUnmarshal_short text n h4 hs
      rw [ht] at h
      exact absurd h (fail_ne_ok _ _)
    · obtain ⟨t, p, l1, l2, s1, s2, e1, e2, r, rfl⟩ := exists_cons8 d (by omega)
      rw [rangeUnmarshal_cons _ _ _ _ _ _ _ _ _ _ _ _ hn] at h
      simp only [List.length_cons] at hs
      have hr : ¬ r.length < n + n := by omega
      by_cases hL : l1.toNat * 256 + l2.toNat = 8 + n + n
      · rw [if_neg (by simpa using hL), if_neg hr] at h
        simp only [Outcome.ok.injEq, Prod.mk.injEq] at h
        obtain ⟨rfl, rfl⟩ := h
        have ha : (r.take n).length = n := by rw [List.length_take]; omega
        have hb : ((r.drop n).take n).length = n := by
          rw [List.length_take, List.length_drop]; omega
        refine ⟨⟨ha, hb⟩, ?_, rfl⟩
        have hsplit : r = r.take n ++ ((r.drop n).take n ++ r.drop (n + n)) := by
          rw [← List.drop_drop, List.take_append_drop, List.take_append_drop]
        have hoct : selectorOctets ⟨t, p, UInt16.ofNat (s1.toNat * 256 + s2.toNat),
            UInt16.ofNat (e1.toNat * 256 + e2.toNat), r.take n, (r.drop n).take n⟩ =
            [t, p, l1, l2, s1, s2, e1, e2] ++ r.take n ++ (r.drop n).take n := by
          rw [selectorOctets, ha, hb, ← hL, putUint16_ofOctets, putUint16_ofOctets,
            putUint16_ofOctets]
          rfl
        rw [hoct, List.append_assoc, List.append_assoc, ← hsplit]
        rfl
      · rw [if_pos hL] at h
        exact absurd h (fail_ne_ok _ _)
  · rintro ⟨hl, rfl, rfl⟩
    obtain ⟨l1, l2, s1, s2, e1, e2, hd, hL, hs, he⟩ := selectorOctets_append hl hn s.data
    have h1 : ts.startAddress.length = n := hl.1
    have h2 : ts.endAddress.length = n := hl.2
    have hlen : ¬ (ts.startAddress ++ (ts.endAddress ++ s.data)).length < n + n := by
      simp only [List.length_append]; omega
    have hdrop : (ts.startAddress ++ (ts.endAddress ++ s.data)).drop (n + n) = s.data := by
      rw [← List.drop_drop, List.drop_left' h1, List.drop_left' h2]
    rw [hd, rangeUnmarshal_cons _ _ _ _ _ _ _ _ _ _ _ _ hn, if_neg (by simpa using hL),
      if_neg hlen, hdrop, List.take_left' h1, List.drop_left' h1, List.take_left' h2, hs, he,
      UInt16.ofNat_toNat, UInt16.ofNat_toNat]

theorem selectorUnmarshal_iff {d sp : Bytes} {ts : IndividualTrafficSelector} {s : Slice UInt8} :
    selectorUnmarshal ⟨d, sp⟩ = .ok (ts, s) ↔
      SelectorOk ts ∧ d = selectorOctets ts ++ s.data ∧ s.spare = sp := by
  have htype : ∀ rest, ∃ tl, selectorOctets ts ++ rest = ts.tsType :: tl := fun rest => ⟨_, rfl⟩
  unfold selectorUnmarshal
  by_cases h4 : d.length < 4
  · rw [if_pos (show (⟨d, sp⟩ : Slice UInt8).len < 4 from h4)]
    constructor
    · intro h; exact absurd h (fail_ne_ok _ _)
    · rintro ⟨_, rfl, _⟩
      simp only [selectorOctets, List.length_append, length_putUint16, List.length_cons,
        List.length_nil] at h4
      omega
  · rw [if_neg (show ¬ (⟨d, sp⟩ : Slice UInt8).len < 4 from h4)]
    cases d with
    | nil => exact absurd (by simp) h4
    | cons t l =>
      rw [Slice.index_mk_zero, Outcome.ok_bind]
      by_cases ht4 : t = tsIPv4AddrRange
      · rw [if_pos ht4, rangeUnmarshal_iff (n := 4) (by omega) (by omega)]
        constructor
        · rintro ⟨hl, hd, hs⟩
          obtain ⟨tl, htl⟩ := htype s.data
          rw [htl] at hd
          injection hd with ht hd'
          exact ⟨Or.inl ⟨by rw [← ht]; exact ht4, hl⟩, by rw [htl, ht, hd'], hs⟩
        · rintro ⟨hok, hd, hs⟩
          refine ⟨?_, hd, hs⟩
          obtain ⟨tl, htl⟩ := htype s.data
          rw [htl] at hd
          injection hd with ht _
          rcases hok with ⟨_, hl⟩ | ⟨ht6, _⟩
          · exact hl
          · rw [← ht, ht4] at ht6
            exact absurd ht6 (by decide)
      · by_cases ht6 : t = tsIPv6AddrRange
        · rw [if_neg ht4, if_pos ht6, rangeUnmarshal_iff (n := 16) (by omega) (by omega)]
          constructor
          · rintro ⟨hl, hd, hs⟩
            obtain ⟨tl, htl⟩ := htype s.data
            rw [htl] at hd
            injection hd with ht hd'
            exact ⟨Or.inr ⟨by rw [← ht]; exact ht6, hl⟩, by rw [htl, ht, hd'], hs⟩
          · rintro ⟨hok, hd, hs⟩
            refine ⟨?_, hd, hs⟩
            obtain ⟨tl, htl⟩ := htype s.data
            rw [htl] at hd
            injection hd with ht _
            rcases hok with ⟨h4', _⟩ | ⟨_, hl⟩
            · exact absurd (by rw [ht]; exact h4') ht4
            · exact hl
        · rw [if_neg ht4, if_neg ht6]
          constructor
          · intro h; exact absurd h (fail_ne_ok _ _)
          · rintro ⟨hok, hd, _⟩
            obtain ⟨tl, htl⟩ := htype s.data
            rw [htl] at hd
            injection hd with ht _
            rcases hok with ⟨h, _⟩ | ⟨h, _⟩
            · exact absurd (by rw [ht]; exact h) ht4
            · exact absurd (by rw [ht]; exact h) ht6

/-! ## the loop and the payload -/

theorem selectorsUnmarshal_iff {n : Nat} {d sp : Bytes}
    {acc r : List IndividualTrafficSelector} :
    selectorsUnmarshal n ⟨d, sp⟩ acc = .ok r ↔
      ∃ tss rest, tss.length = n ∧ (∀ ts ∈ tss, SelectorOk ts) ∧
        d = tss.flatMap selectorOctets ++ rest ∧ r = acc ++ tss := by
  induction n generalizing d acc with
  | zero =>
    constructor
    · intro h
      injection h with h
      exact ⟨[], d, rfl, by simp, rfl, by rw [List.append_nil, h]⟩
    · rintro ⟨tss, rest, hl, _, _, rfl⟩
      rw [List.length_eq_zero_iff.mp hl, List.append_nil]
      rfl
  | succ n ih =>
    show (selectorUnmarshal ⟨d, sp⟩ >>= _) = _ ↔ _
    rw [Outcome.bind_eq_ok]
    constructor
    · rintro ⟨⟨ts, s⟩, h1, h2⟩
      obtain ⟨hok, hd, hsp⟩ := selectorUnmarshal_iff.mp h1
      obtain ⟨tss, rest, hl, hall, hs, rfl⟩ := ih (d := s.data).mp (by rw [← hsp]; exact h2)
      refine ⟨ts :: tss, rest, by rw [List.length_cons, hl], ?_, ?_, ?_⟩
      · exact List.forall_mem_cons.mpr ⟨hok, hall⟩
      · rw [List.flatMap_cons, List.append_assoc, ← hs]
        exact hd
      · simp
    · rintro ⟨tss, rest, hl, hall, hd, rfl⟩
      cases tss with
      | nil => exact absurd hl (by simp)
      | cons ts tss =>
        rw [List.flatMap_cons, List.append_assoc] at hd
        refine ⟨(ts, ⟨tss.flatMap selectorOctets ++ rest, sp⟩),
          selectorUnmarshal_iff.mpr ⟨hall ts (List.mem_cons_self ..), hd, rfl⟩,
          ih.mpr ⟨tss, rest, by simpa using hl, fun x hx => hall x (List.mem_cons_of_mem _ hx),
            rfl, by simp⟩⟩

/-- **Accepted traffic selector payloads**: nothing, or a header and as many valid selectors as
it announces, followed by anything. -/
theorem tsUnmarshal_iff {old r : List IndividualTrafficSelector} {d sp : Bytes} :
    tsUnmarshal old ⟨d, sp⟩ = .ok r ↔
      (d = [] ∧ r = old) ∨
      ∃ n r1 r2 r3 tss rest, d = n :: r1 :: r2 :: r3 :: (tss.flatMap selectorOctets ++ rest) ∧
        tss.length = n.toNat ∧ (∀ ts ∈ tss, SelectorOk ts) ∧ r = old ++ tss := by
  unfold tsUnmarshal
  rcases header_cases d with rfl | ⟨h0, h4⟩ | ⟨n, r1, r2, r3, l, rfl⟩
  · rw [if_neg (by simp)]
    simp [eq_comm]
  · rw [if_pos (show (⟨d, sp⟩ : Slice UInt8).len > 0 from List.length_pos_iff.mpr h0),
      if_pos (show (⟨d, sp⟩ : Slice UInt8).len < 4 from h4)]
    refine iff_of_false (fail_ne_ok _ _) fun h => ?_
    rcases h with ⟨h, _⟩ | ⟨n, r1, r2, r3, tss, rest, rfl, _⟩
    · exact h0 h
    · simp only [List.length_cons] at h4
      omega
  · rw [if_pos (by simp), if_neg (by simp), Slice.index_mk_zero,
      Slice.sliceFrom_data _ (by simp)]
    simp only [Outcome.ok_bind, List.drop_succ_cons, List.drop_zero]
    rw [selectorsUnmarshal_iff]
    constructor
    · rintro ⟨tss, rest, hl, hok, rfl, rfl⟩
      exact Or.inr ⟨n, r1, r2, r3, tss, rest, rfl, hl, hok, rfl⟩
    · rintro (⟨h, _⟩ | ⟨n', x, y, z, tss, rest, h, hl, hok, rfl⟩)
      · exact absurd h (by simp)
      · simp only [List.cons.injEq] at h
        obtain ⟨rfl, rfl, rfl, rfl, rfl⟩ := h
        exact ⟨tss, rest, hl, hok, rfl, rfl⟩

/-! ## what the decoders read -/

/-- the selector at the front is read, or refused, without a look behind the data -/
theorem rangeUnmarshal_cases (text : String) {n : Nat} (hn : n ≤ 16) {d : Bytes}
    (h4 : 4 ≤ d.length) :
    (∃ ts rest, ∀ sp, rangeUnmarshal text (8 + n + n) n ⟨d, sp⟩ = .ok (ts, ⟨rest, sp⟩)) ∨
      ∃ t, ∀ sp, rangeUnmarshal text (8 + n + n) n ⟨d, sp⟩ = fail t := by
  by_cases hs : d.length < 8 + n + n
  · exact Or.inr (rangeUnmarshal_short text n h4 hs)
  · obtain ⟨t, p, l1, l2, s1, s2, e1, e2, r, rfl⟩ := exists_cons8 d (by omega)
    simp only [rangeUnmarshal_cons _ _ _ _ _ _ _ _ _ _ _ _ hn]
    simp only [List.length_cons] at hs
    by_cases hL : l1.toNat * 256 + l2.toNat = 8 + n + n
    · exact Or.inl ⟨_, r.drop (n + n), fun sp => (if_neg (not_not_intro hL)).trans (if_neg (by omega))⟩
    · exact Or.inr ⟨text, fun sp => if_pos hL⟩

theorem selectorUnmarshal_cases (d : Bytes) :
    (∃ ts rest, ∀ sp, selectorUnmarshal ⟨d, sp⟩ = .ok (ts, ⟨rest, sp⟩)) ∨
      ∃ t, ∀ sp, selectorUnmarshal ⟨d, sp⟩ = fail t := by
  by_cases h4 : d.length < 4
  · exact Or.inr ⟨_, fun sp => if_pos h4⟩
  have hhead : ∃ t l, d = t :: l := by
    cases d with
    | nil => exact absurd (by simp) h4
    | cons t l => exact ⟨t, l, rfl⟩
  obtain ⟨t, l, hd⟩ := hhead
  have hswitch : ∀ sp, selectorUnmarshal ⟨d, sp⟩ =
      if t = tsIPv4AddrRange then
        rangeUnmarshal
          "TrafficSelector: A TS_IPV4_ADDR_RANGE type traffic selector should has length 16 bytes"
          16 4 ⟨d, sp⟩
      else if t = tsIPv6AddrRange then
        rangeUnmarshal
          "TrafficSelector: A TS_IPV6_ADDR_RANGE type traffic selector should has length 40 bytes"
          40 16 ⟨d, sp⟩
      else fail "TrafficSelector: Unsupported traffic selector type" := by
    intro sp
    rw [selectorUnmarshal, if_neg (show ¬ (⟨d, sp⟩ : Slice UInt8).len < 4 from h4), hd,
      Slice.index_mk_zero, Outcome.ok_bind]
  simp only [hswitch]
  by_cases ht4 : t = tsIPv4AddrRange
  · simp only [if_pos ht4]
    exact rangeUnmarshal_cases _ (n := 4) (by omega) (by omega)
  · by_cases ht6 : t = tsIPv6AddrRange
    · simp only [if_neg ht4, if_pos ht6]
      exact rangeUnmarshal_cases _ (n := 16) (by omega) (by omega)
    · exact Or.inr ⟨_, fun sp => by rw [if_neg ht4, if_neg ht6]⟩

theorem selectorsUnmarshal_within (n : Nat) (d : Bytes) (acc : List IndividualTrafficSelector) :
    Within (fun s => selectorsUnmarshal n s acc) d := by
  induction n generalizing d acc with
  | zero => exact .of_ok fun sp => rfl
  | succ n ih =>
    rcases selectorUnmarshal_cases d with ⟨ts, rest, hok⟩ | ⟨t, hfail⟩
    · refine .of_rest (ih rest (acc ++ [ts])) fun sp => ?_
      rw [selectorsUnmarshal, hok]
      rfl
    · refine .of_fail t fun sp => ?_
      rw [selectorsUnmarshal, hfail]
      rfl

/-- **The decoders read nothing behind the payload**, and never panic. -/
theorem tsUnmarshal_within (old : List IndividualTrafficSelector) (b : Bytes) :
    Within (tsUnmarshal old) b := by
  rcases header_cases b with rfl | ⟨h0, h4⟩ | ⟨n, r1, r2, r3, l, rfl⟩
  · exact .of_ok fun sp => rfl
  · refine .of_fail
      "TrafficSelector: No sufficient bytes to get number of traffic selector in header" fun sp => ?_
    rw [tsUnmarshal, if_pos (show (⟨b, sp⟩ : Slice UInt8).len > 0 from List.length_pos_iff.mpr h0),
      if_pos (show (⟨b, sp⟩ : Slice UInt8).len < 4 from h4)]
  · refine .of_rest (selectorsUnmarshal_within n.toNat l old) fun sp => ?_
    rw [tsUnmarshal, if_pos (by simp), if_neg (by simp), Slice.index_mk_zero,
      Slice.sliceFrom_data _ (by simp)]
    rfl

/-! ## encoder and decoder -/

/-- what is written is read back -/
theorem tsUnmarshal_marshal {t : String} {tss : List IndividualTrafficSelector} {d : Bytes}
    (h : tsMarshal t tss = .ok d) (sp : Bytes) : tsUnmarshal [] ⟨d, sp⟩ = .ok tss := by
  obtain ⟨⟨_, h255, hok⟩, rfl⟩ := tsMarshal_iff.mp h
  refine tsUnmarshal_iff.mpr (Or.inr ⟨UInt8.ofNat tss.length, 0, 0, 0, tss, [], ?_, ?_, hok, rfl⟩)
  · rw [List.append_nil]
    rfl
  · rw [UInt8.toNat_ofNat_of_lt' (show tss.length < 256 by omega)]

/-- the decoder takes `p`, and no less, from the front of the data, whatever follows -/
def Consumes {α : Type} (u : Slice UInt8 → Outcome α) (p : Bytes) (x : α) : Prop :=
  (∀ rest sp, u ⟨p ++ rest, sp⟩ = .ok x) ∧
    ∀ q rest, p = q ++ rest → q ≠ [] → rest ≠ [] → ∀ sp y, u ⟨q, sp⟩ ≠ .ok y

theorem tsUnmarshal_consumes {n r1 r2 r3 : UInt8} {tss : List IndividualTrafficSelector}
    (hl : tss.length = n.toNat) (hok : ∀ ts ∈ tss, SelectorOk ts) :
    Consumes (tsUnmarshal []) (n :: r1 :: r2 :: r3 :: tss.flatMap selectorOctets) tss := by
  have hread : ∀ rest sp, tsUnmarshal []
      ⟨n :: r1 :: r2 :: r3 :: (tss.flatMap selectorOctets ++ rest), sp⟩ = .ok tss :=
    fun rest sp => tsUnmarshal_iff.mpr (Or.inr ⟨n, r1, r2, r3, tss, rest, rfl, hl, hok, rfl⟩)
  refine ⟨hread, ?_⟩
  intro q rest hp hq hrest sp y hy
  rcases tsUnmarshal_iff.mp hy with ⟨h0, _⟩ | ⟨n', x1, x2, x3, _, rest', rfl, hl', hok', rfl⟩
  · exact hq h0
  -- with the octets that were cut off it is the whole payload, and read as that
  have hsame : tsUnmarshal []
      ⟨n' :: x1 :: x2 :: x3 :: (y.flatMap selectorOctets ++ (rest' ++ rest)), sp⟩ = .ok y :=
    tsUnmarshal_iff.mpr (Or.inr ⟨n', x1, x2, x3, y, rest' ++ rest, rfl, hl', hok', rfl⟩)
  have hwhole := hread [] sp
  rw [List.append_nil, hp, List.cons_append, List.cons_append, List.cons_append, List.cons_append,
    List.append_assoc, hsame] at hwhole
  have htss : y = tss := Outcome.ok.inj hwhole
  have hlen := congrArg List.length hp
  simp only [htss, List.length_append, List.length_cons] at hlen
  exact hrest (List.length_eq_zero_iff.mp (by omega))

/-- an accepted payload with a selector is written as it was read, with zeros in the reserved
octets -/
theorem tsMarshal_unmarshal (t : String) {b sp : Bytes} {tss : List IndividualTrafficSelector}
    (h : tsUnmarshal [] ⟨b, sp⟩ = .ok tss) {n : UInt8} (hb : b.head? = some n) (hn : n ≠ 0) :
    ∃ r1 r2 r3 selectors rest, b = n :: r1 :: r2 :: r3 :: (selectors ++ rest) ∧
      Consumes (tsUnmarshal []) (n :: r1 :: r2 :: r3 :: selectors) tss ∧
      tsMarshal t tss = .ok (n :: 0 :: 0 :: 0 :: selectors) := by
  rcases tsUnmarshal_iff.mp h with ⟨h0, _⟩ | ⟨n', r1, r2, r3, tss', rest, rfl, hl, hok, hr⟩
  · rw [h0] at hb
    exact absurd hb (by simp)
  obtain rfl : n' = n := Option.some.inj hb
  rw [List.nil_append] at hr
  subst hr
  have h255 : n'.toNat < 256 := n'.toNat_lt
  have hne : tss ≠ [] := by
    rintro rfl
    exact hn (UInt8.toNat_inj.mp hl.symm)
  refine ⟨r1, r2, r3, tss.flatMap selectorOctets, rest, rfl, tsUnmarshal_consumes hl hok, ?_⟩
  refine tsMarshal_iff.mpr ⟨⟨hne, by omega, hok⟩, ?_⟩
  rw [hl, UInt8.ofNat_toNat]
  rfl

theorem tsMarshal_long (t : String) {tss : List IndividualTrafficSelector} (h : 255 < tss.length) :
    tsMarshal t tss = fail s!"TrafficSelector: {t}: {tss.length}" := by
  rw [tsMarshal, if_neg (by omega), if_pos h]

/-- the two encoders differ in the text for more than 255 selectors, and in nothing else -/
theorem trafficSelector_marshal_eq (tss : List IndividualTrafficSelector) :
    (tss.length ≤ 255 →
      TrafficSelectorResponder.marshal ⟨tss⟩ = TrafficSelectorInitiator.marshal ⟨tss⟩) ∧
    (255 < tss.length →
      TrafficSelectorResponder.marshal ⟨tss⟩ =
        fail s!"TrafficSelector: invalid traffic selectors count: {tss.length}" ∧
      TrafficSelectorInitiator.marshal ⟨tss⟩ =
        fail s!"TrafficSelector: too many traffic selectors: {tss.length}") := by
  rw [TrafficSelectorResponder.marshal_eq, TrafficSelectorInitiator.marshal]
  refine ⟨fun h => ?_, fun h => ⟨tsMarshal_long _ h, tsMarshal_long _ h⟩⟩
  have h255 : ¬ tss.length > 0xFF := by omega
  simp only [tsMarshal, if_neg h255]

/-- **The traffic selector codecs are exact, and the two copies agree.**  The encoder accepts just the
lists of 1 to 255 valid selectors, and what it writes is read back; the decoder reads nothing behind
the payload, and what it accepts is written again as it was read, with zeros in the reserved octets.
The encoder of TSr gives what that of TSi gives, up to the text for more than 255 selectors, and the
decoder of TSr what that of TSi gives. -/
theorem trafficSelectors_exact :
    (∀ tss, (∃ d, TrafficSelectorInitiator.marshal ⟨tss⟩ = .ok d) ↔
      (1 ≤ tss.length ∧ tss.length ≤ 255) ∧ ∀ ts ∈ tss, SelectorOk ts) ∧
    (∀ tss d, TrafficSelectorInitiator.marshal ⟨tss⟩ = .ok d →
      ∀ sp, TrafficSelectorInitiator.unmarshal ⟨[]⟩ ⟨d, sp⟩ = .ok ⟨tss⟩) ∧
    (∀ (p : TrafficSelectorInitiator) b, Within p.unmarshal b) ∧
    (∀ b sp p n, TrafficSelectorInitiator.unmarshal ⟨[]⟩ ⟨b, sp⟩ = .ok p → b.head? = some n → n ≠ 0 →
      ∃ r1 r2 r3 selectors rest, b = n :: r1 :: r2 :: r3 :: (selectors ++ rest) ∧
        Consumes (TrafficSelectorInitiator.unmarshal ⟨[]⟩) (n :: r1 :: r2 :: r3 :: selectors) p ∧
        p.marshal = .ok (n :: 0 :: 0 :: 0 :: selectors)) ∧
    (∀ tss, (tss.length ≤ 255 →
        TrafficSelectorResponder.marshal ⟨tss⟩ = TrafficSelectorInitiator.marshal ⟨tss⟩) ∧
      (255 < tss.length →
        TrafficSelectorResponder.marshal ⟨tss⟩ =
          fail s!"TrafficSelector: invalid traffic selectors count: {tss.length}" ∧
        TrafficSelectorInitiator.marshal ⟨tss⟩ =
          fail s!"TrafficSelector: too many traffic selectors: {tss.length}")) ∧
    (∀ old b, TrafficSelectorResponder.trafficSelectors <$> TrafficSelectorResponder.unmarshal ⟨old⟩ b =
      TrafficSelectorInitiator.trafficSelectors <$> TrafficSelectorInitiator.unmarshal ⟨old⟩ b) := by
  refine ⟨fun tss => ?_, fun tss d h sp => ?_, fun p b => ?_, fun b sp p n h hb hn => ?_,
    trafficSelector_marshal_eq, fun old b => ?_⟩
  · constructor
    · intro h
      obtain ⟨d, hd⟩ := h
      obtain ⟨⟨hne, h255, hok⟩, _⟩ := tsMarshal_iff.mp hd
      exact ⟨⟨List.length_pos_iff.mpr hne, h255⟩, hok⟩
    · intro h
      exact ⟨_, tsMarshal_iff.mpr ⟨⟨List.length_pos_iff.mp h.1.1, h.1.2, h.2⟩, rfl⟩⟩
  · exact Outcome.map_eq_ok.mpr ⟨tss, tsUnmarshal_marshal h sp, rfl⟩
  · exact .map (fun tss => ⟨tss⟩) (tsUnmarshal_within p.trafficSelectors b) fun sp => rfl
  · obtain ⟨tss, htss, rfl⟩ := Outcome.map_eq_ok.mp h
    obtain ⟨r1, r2, r3, selectors, rest, rfl, ⟨hread, hleast⟩, hm⟩ :=
      tsMarshal_unmarshal "too many traffic selectors" htss hb hn
    refine ⟨r1, r2, r3, selectors, rest, rfl, ⟨fun x sp => ?_, ?_⟩, hm⟩
    · exact Outcome.map_eq_ok.mpr ⟨tss, hread x sp, rfl⟩
    · intro q x hp hq hx sp y hy
      obtain ⟨z, hz, _⟩ := Outcome.map_eq_ok.mp hy
      exact hleast q x hp hq hx sp z hz
  · show TrafficSelectorResponder.trafficSelectors <$> (_ <$> tsUnmarshal old b) =
      TrafficSelectorInitiator.trafficSelectors <$> (_ <$> tsUnmarshal old b)
    cases tsUnmarshal old b <;> rfl

end Ike

import Mathlib.Tactic.Linarith
import IKEv2.GoLang.Loop
import IKEv2.Message.Types

/-!
# The Delete payload (`message/payload_delete.go`)

The encoder writes each SPI into a buffer of `SPISize` octets; the decoder steps through the rest
of the payload in groups of four octets, whatever `SPISize` says.  A last group that is not
complete is cut out of the octets behind the payload, so this is the one decoder whose result can
depend on them.

* `Delete.unmarshal_cons`   the decoder on a payload with a complete header;
* `spiLoop_words`           on a multiple of four octets the loop reads just these octets;
* `spiLoop_length`          otherwise it still reads one SPI for the incomplete group;
* `Delete.unmarshal_behind` which is made of the first octets behind the payload;
* `Delete.declared_iff`     when the decoder yields the SPIs that the header declares.
-/

set_option linter.unusedVariables false

namespace Ike
open GoLang

/-- the SPIs one after the other, each through the same buffer -/
def Delete.putSPIs (byteSlice : Bytes) : List UInt32 → Outcome Bytes
  | [] => .ok []
  | v :: vs => do
    let byteSlice ← putUint32At byteSlice v
    let rest ← Delete.putSPIs byteSlice vs
    pure (byteSlice ++ rest)

def Delete.marshal (d : Delete) : Outcome Bytes :=
  if d.spis.length ≠ d.numberOfSPI.toNat then fail "Number of SPI not correct"
  else if d.numberOfSPI.toNat > 0 then do
    let body ← Delete.putSPIs (List.replicate d.spiSize.toNat 0) d.spis
    pure ([d.protocolID, d.spiSize] ++ putUint16 d.numberOfSPI ++ body)
  else pure ([d.protocolID, d.spiSize] ++ putUint16 d.numberOfSPI)

/-- one SPI; the loop variables are the index and the SPIs read so far -/
def Delete.spiRound (b : Slice UInt8) (s : Nat × List UInt32) : Outcome (Nat × List UInt32) := do
  let w ← b.slice s.1 (s.1 + 4)
  let spi ← uint32 w.data
  pure (s.1 + 4, s.2 ++ [spi])

/-- `for i := 0; i < len(b); i += 4` -/
def Delete.spiLoop (b : Slice UInt8) (s : Nat × List UInt32) : Outcome (Nat × List UInt32) :=
  whileLoop (fun s => b.len - s.1) (fun s => decide (s.1 < b.len)) (Delete.spiRound b) s

def Delete.unmarshal (d : Delete) (b : Slice UInt8) : Outcome Delete :=
  if b.len > 0 then
    if b.len ≤ 3 then fail "Delete: No sufficient bytes to decode next delete"
    else do
      let spiSize ← b.index 1
      let n ← b.slice 2 4
      let numberOfSPI ← uint16 n.data
      if b.len < 4 + spiSize.toNat * numberOfSPI.toNat then
        fail "Delete: No Sufficient bytes to get SPIs according to the length specified in header"
      else do
        let protocolID ← b.index 0
        let rest ← b.sliceFrom 4
        let s ← Delete.spiLoop rest (0, d.spis)
        pure { protocolID := protocolID, spiSize := spiSize, numberOfSPI := numberOfSPI, spis := s.2 }
  else pure d

/-! ## the encoder -/

theorem putSPIs_wide (buf : Bytes) (vs : List UInt32) (h : 4 ≤ buf.length) :
    Delete.putSPIs buf vs = .ok (vs.flatMap fun v => putUint32 v ++ buf.drop 4) := by
  induction vs generalizing buf with
  | nil => rfl
  | cons v vs ih =>
    have hd : (putUint32 v ++ buf.drop 4).drop 4 = buf.drop 4 := by
      rw [List.drop_left' (length_putUint32 v)]
    rw [Delete.putSPIs, putUint32At, if_pos h, Outcome.ok_bind, ih _ (by simp), hd]
    rfl

theorem putSPIs_narrow (buf : Bytes) (v : UInt32) (vs : List UInt32) (h : buf.length < 4) :
    Delete.putSPIs buf (v :: vs) = .panic .indexOutOfRange := by
  rw [Delete.putSPIs, putUint32At, if_neg (by omega)]
  rfl

theorem length_flatMap_const {α β : Type} (l : List α) (f : α → List β) (n : Nat)
    (h : ∀ a, (f a).length = n) : (l.flatMap f).length = n * l.length := by
  induction l with
  | nil => rfl
  | cons a l ih => rw [List.flatMap_cons, List.length_append, ih, h, List.length_cons, Nat.mul_succ,
      Nat.add_comm]

/-! ## the decoder's loop -/

theorem spiRound_ok {b : Slice UInt8} {s s' : Nat × List UInt32}
    (h : Delete.spiRound b s = .ok s') : ∃ spi, s' = (s.1 + 4, s.2 ++ [spi]) := by
  obtain ⟨w, _, h⟩ := Outcome.bind_eq_ok.mp h
  obtain ⟨spi, _, h⟩ := Outcome.bind_eq_ok.mp h
  injection h with h
  exact ⟨spi, h.symm⟩

theorem spiLoop_decreasing (b : Slice UInt8) :
    Decreasing (fun s : Nat × List UInt32 => b.len - s.1) (fun s => decide (s.1 < b.len))
      (Delete.spiRound b) := by
  intro s s' hc hb
  obtain ⟨spi, rfl⟩ := spiRound_ok hb
  have hlt : s.1 < b.len := by simpa using hc
  show b.len - (s.1 + 4) < b.len - s.1
  omega

theorem spiLoop_done (b : Slice UInt8) (i : Nat) (acc : List UInt32) (h : b.len ≤ i) :
    Delete.spiLoop b (i, acc) = .ok (i, acc) :=
  whileLoop_done (spiLoop_decreasing b) (by simpa using h)

theorem spiLoop_step (b : Slice UInt8) (i : Nat) (acc : List UInt32) (h : i < b.len) :
    Delete.spiLoop b (i, acc) = Delete.spiRound b (i, acc) >>= Delete.spiLoop b :=
  whileLoop_step (spiLoop_decreasing b) (by simpa using h)

/-- the loop counts one SPI for every started group of four octets -/
theorem spiLoop_length (b : Slice UInt8) (acc : List UInt32) (r : Nat × List UInt32)
    (h : Delete.spiLoop b (0, acc) = .ok r) :
    r.2.length = acc.length + (b.len + 3) / 4 := by
  have hinv := whileLoop_inv (spiLoop_decreasing b)
    (I := fun s => s.1 + 4 * acc.length = 4 * s.2.length ∧ s.1 < b.len + 4) ?_
    (s := (0, acc)) (by simp) h
  · obtain ⟨⟨h1, h2⟩, h3⟩ := hinv
    have h3' : b.len ≤ r.1 := by simpa using h3
    omega
  · intro s s' ⟨h1, h2⟩ hc hb
    obtain ⟨spi, rfl⟩ := spiRound_ok hb
    have hlt : s.1 < b.len := by simpa using hc
    refine ⟨?_, ?_⟩
    · show s.1 + 4 + 4 * acc.length = 4 * (s.2 ++ [spi]).length
      rw [List.length_append, List.length_singleton]
      omega
    · show s.1 + 4 < b.len + 4
      omega

/-- the four octets at an index, as an SPI; they may lie behind the payload -/
theorem spiRound_at (b : Slice UInt8) (i : Nat) (pre post : Bytes) (v : UInt32)
    (hd : b.data ++ b.spare = pre ++ putUint32 v ++ post) (hi : pre.length = i) (acc : List UInt32) :
    Delete.spiRound b (i, acc) = .ok (i + 4, acc ++ [v]) := by
  have hlen : i + 4 ≤ b.cap := by
    have hl := congrArg List.length hd
    simp only [List.length_append, length_putUint32] at hl
    show i + 4 ≤ b.data.length + b.spare.length
    omega
  have hw : ((b.data ++ b.spare).take (i + 4)).drop i = putUint32 v ++ [] := by
    rw [hd, List.take_left' (by simp [hi]), List.drop_left' hi, List.append_nil]
  unfold Delete.spiRound Slice.slice
  rw [if_pos ⟨Nat.le_add_right i 4, hlen⟩, Outcome.ok_bind]
  show (uint32 (((b.data ++ b.spare).take (i + 4)).drop i) >>= _) = _
  rw [hw, uint32_putUint32]
  rfl

/-- the loop reads the groups of four octets that begin in the payload -/
theorem spiLoop_groups (b : Slice UInt8) (vs : List UInt32) :
    ∀ (pre post : Bytes) (acc : List UInt32),
      b.data ++ b.spare = pre ++ vs.flatMap putUint32 ++ post → b.len ≤ pre.length + 4 * vs.length →
      pre.length + 4 * vs.length < b.len + 4 →
      Delete.spiLoop b (pre.length, acc) = .ok (pre.length + 4 * vs.length, acc ++ vs) := by
  induction vs with
  | nil =>
    intro pre post acc hd h1 h2
    rw [List.append_nil]
    exact spiLoop_done b _ _ h1
  | cons v vs ih =>
    intro pre post acc hd h1 h2
    rw [List.length_cons] at h1 h2
    rw [List.flatMap_cons, ← List.append_assoc] at hd
    have hlen : (pre ++ putUint32 v).length = pre.length + 4 := by
      rw [List.length_append, length_putUint32]
    have hrest := ih (pre ++ putUint32 v) post (acc ++ [v]) hd (by omega) (by omega)
    rw [hlen, List.append_assoc] at hrest
    rw [List.append_assoc] at hd
    rw [spiLoop_step b _ _ (by omega), spiRound_at b _ pre _ v hd rfl, Outcome.ok_bind, hrest,
      List.length_cons]
    congr 2
    omega

/-- SPIs written as groups of four octets are read back, without a look behind the payload -/
theorem spiLoop_words (b : Slice UInt8) (vs : List UInt32) (acc : List UInt32)
    (hd : b.data = vs.flatMap putUint32) : Delete.spiLoop b (0, acc) = .ok (b.len, acc ++ vs) := by
  have hl : b.len = 4 * vs.length := by
    show b.data.length = _
    rw [hd, length_flatMap_const vs putUint32 4 fun v => length_putUint32 v]
  have h := spiLoop_groups b vs [] b.spare acc (by rw [hd]; rfl) (by simp [hl]) (by simp [hl])
  rw [hl]
  simpa using h

/-- every multiple of four octets is a sequence of SPIs -/
theorem exists_words (l : Bytes) (k : Nat) (h : l.length = 4 * k) :
    ∃ vs : List UInt32, l = vs.flatMap putUint32 ∧ vs.length = k := by
  induction k generalizing l with
  | zero => exact ⟨[], List.length_eq_zero_iff.mp h, rfl⟩
  | succ k ih =>
    have h4 : (l.take 4).length = 4 := by rw [List.length_take]; omega
    obtain ⟨vs, hvs, hk⟩ := ih (l.drop 4) (by rw [List.length_drop]; omega)
    refine ⟨UInt32.ofNat (octNat (l.take 4)) :: vs, ?_, by rw [List.length_cons, hk]⟩
    rw [List.flatMap_cons, putUint32_ofOctets h4, ← hvs, List.take_append_drop]

/-! ## the decoder -/

theorem Delete.unmarshal_short (d : Delete) (l sp : Bytes) (h0 : l ≠ []) (h : l.length ≤ 3) :
    d.unmarshal ⟨l, sp⟩ = fail "Delete: No sufficient bytes to decode next delete" := by
  have hp : 0 < l.length := List.length_pos_iff.mpr h0
  rw [Delete.unmarshal, if_pos (show (⟨l, sp⟩ : Slice UInt8).len > 0 from hp),
    if_pos (show (⟨l, sp⟩ : Slice UInt8).len ≤ 3 from h)]

theorem Delete.unmarshal_cons (d : Delete) (proto size n1 n2 : UInt8) (l sp : Bytes) :
    d.unmarshal ⟨proto :: size :: n1 :: n2 :: l, sp⟩ =
      if l.length < size.toNat * (n1.toNat * 256 + n2.toNat) then
        fail "Delete: No Sufficient bytes to get SPIs according to the length specified in header"
      else
        (fun s => ⟨proto, size, UInt16.ofNat (n1.toNat * 256 + n2.toNat), s.2⟩) <$>
          Delete.spiLoop ⟨l, sp⟩ (0, d.spis) := by
  have h1 : n1.toNat < 256 := n1.toNat_lt
  have h2 : n2.toNat < 256 := n2.toNat_lt
  have hn : (UInt16.ofNat (n1.toNat * 256 + n2.toNat)).toNat = n1.toNat * 256 + n2.toNat := by
    rw [UInt16.toNat_ofNat_of_lt']
    show _ < 65536
    omega
  unfold Delete.unmarshal
  rw [if_pos (by simp), if_neg (by simp), Slice.index_mk_succ, Slice.index_mk_zero,
    Slice.slice_data _ (by omega) (by simp)]
  simp only [Outcome.ok_bind, List.take_succ_cons, List.take_zero, List.drop_succ_cons,
    List.drop_zero, uint16_pair, hn]
  by_cases hlt : l.length < size.toNat * (n1.toNat * 256 + n2.toNat)
  · rw [if_pos (by simp only [Slice.len_mk, List.length_cons]; omega), if_pos hlt]
  · rw [if_neg (by simp only [Slice.len_mk, List.length_cons]; omega), if_neg hlt,
      Slice.index_mk_zero, Slice.sliceFrom_data _ (by simp)]
    rfl

/-- a body of whole SPIs, when it is long enough for what the header says -/
theorem Delete.unmarshal_words (d : Delete) (proto : UInt8) {size n1 n2 : UInt8} {vs : List UInt32}
    (hroom : ¬ (vs.flatMap putUint32).length < size.toNat * (n1.toNat * 256 + n2.toNat))
    (sp : Bytes) :
    d.unmarshal ⟨proto :: size :: n1 :: n2 :: vs.flatMap putUint32, sp⟩ =
      .ok ⟨proto, size, UInt16.ofNat (n1.toNat * 256 + n2.toNat), d.spis ++ vs⟩ := by
  rw [Delete.unmarshal_cons, if_neg hroom, spiLoop_words ⟨vs.flatMap putUint32, sp⟩ vs d.spis rfl]
  rfl

/-- whole groups of four octets are read without a look behind the payload -/
theorem spiLoop_spare {l : Bytes} (h4 : l.length % 4 = 0) (sp sp' : Bytes) (acc : List UInt32) :
    Delete.spiLoop ⟨l, sp⟩ (0, acc) = Delete.spiLoop ⟨l, sp'⟩ (0, acc) := by
  obtain ⟨vs, rfl, _⟩ := exists_words l (l.length / 4) (by omega)
  exact (spiLoop_words ⟨vs.flatMap putUint32, sp⟩ vs acc rfl).trans
    (spiLoop_words ⟨vs.flatMap putUint32, sp'⟩ vs acc rfl).symm

theorem Delete.unmarshal_spare {d d' : Delete} {b sp : Bytes} (h4 : b.length % 4 = 0) (sp' : Bytes)
    (h : d.unmarshal ⟨b, sp⟩ = .ok d') : d.unmarshal ⟨b, sp'⟩ = .ok d' := by
  rcases header_cases b with rfl | ⟨h0, hlt⟩ | ⟨proto, size, n1, n2, l, rfl⟩
  · exact h
  · have hpos := List.length_pos_iff.mpr h0
    omega
  · have hl : l.length % 4 = 0 := by simp only [List.length_cons] at h4; omega
    rw [Delete.unmarshal_cons] at h ⊢
    rw [spiLoop_spare hl sp' sp]
    exact h

/-- a started group of four octets is filled up with what lies behind the payload -/
theorem spiLoop_behind {l s : Bytes} {r : Nat} (h4 : (l.length + r) % 4 = 0) (hr : r < 4)
    (hs : r ≤ s.length) (acc : List UInt32) :
    ∃ i vs, l ++ s.take r = vs.flatMap putUint32 ∧
      Delete.spiLoop ⟨l, s⟩ (0, acc) = .ok (i, acc ++ vs) := by
  have hlen : (l ++ s.take r).length = l.length + r := by
    rw [List.length_append, List.length_take]
    omega
  obtain ⟨vs, hvs, hk⟩ := exists_words (l ++ s.take r) ((l.length + r) / 4) (by omega)
  have hd : l ++ s = [] ++ vs.flatMap putUint32 ++ s.drop r := by
    rw [List.nil_append, ← hvs, List.append_assoc, List.take_append_drop]
  refine ⟨_, vs, hvs, spiLoop_groups ⟨l, s⟩ vs [] _ acc hd ?_ ?_⟩
  · show l.length ≤ 0 + 4 * vs.length
    omega
  · show 0 + 4 * vs.length < l.length + 4
    omega

/-- **A Delete payload that ends inside an SPI** takes the missing octets from behind it. -/
theorem Delete.unmarshal_behind {d0 : Delete} {b sp : Bytes} (h4 : b.length % 4 ≠ 0)
    (h : (⟨0, 0, 0, []⟩ : Delete).unmarshal ⟨b, sp⟩ = .ok d0) {s : Bytes} (hs : 3 ≤ s.length) :
    ∃ d, (⟨0, 0, 0, []⟩ : Delete).unmarshal ⟨b, s⟩ = .ok d ∧
      d.spis.flatMap putUint32 = b.drop 4 ++ s.take (4 - b.length % 4) := by
  rcases header_cases b with rfl | ⟨h0, hlt⟩ | ⟨proto, size, n1, n2, l, rfl⟩
  · exact absurd rfl h4
  · rw [Delete.unmarshal_short _ b sp h0 (by omega)] at h
    exact absurd h (fail_ne_ok _ _)
  · have hl : (proto :: size :: n1 :: n2 :: l).length = l.length + 4 := rfl
    rw [hl] at h4 ⊢
    rw [Delete.unmarshal_cons] at h
    by_cases hsize : l.length < size.toNat * (n1.toNat * 256 + n2.toNat)
    · rw [if_pos hsize] at h
      exact absurd h (fail_ne_ok _ _)
    · obtain ⟨i, vs, hvs, hloop⟩ := spiLoop_behind (l := l) (s := s)
        (r := 4 - (l.length + 4) % 4) (by omega) (by omega) (by omega) []
      refine ⟨_, by rw [Delete.unmarshal_cons, if_neg hsize, hloop]; rfl, ?_⟩
      exact hvs.symm

/-! ## payloads that are given back -/

/-- what the encoder accepts: as many SPIs as announced, each in at least four octets -/
theorem Delete.marshal_eq_ok {d : Delete} {data : Bytes} :
    d.marshal = .ok data ↔ d.spis.length = d.numberOfSPI.toNat ∧
      (d.spis = [] ∨ 4 ≤ d.spiSize.toNat) ∧
      data = [d.protocolID, d.spiSize] ++ putUint16 d.numberOfSPI ++
        d.spis.flatMap fun v => putUint32 v ++ List.replicate (d.spiSize.toNat - 4) 0 := by
  unfold Delete.marshal
  by_cases hn : d.spis.length = d.numberOfSPI.toNat
  · rw [if_neg (not_not_intro hn)]
    cases hs : d.spis with
    | nil =>
      have hz : d.numberOfSPI.toNat = 0 := by rw [← hn, hs]; rfl
      rw [if_neg (by omega)]
      simp [hz, eq_comm]
    | cons v vs =>
      rw [hs, List.length_cons] at hn
      rw [if_pos (by omega), List.length_cons]
      by_cases h4 : 4 ≤ d.spiSize.toNat
      · rw [putSPIs_wide _ _ (by simpa using h4), List.drop_replicate]
        simp [hn, h4, eq_comm]
      · rw [putSPIs_narrow _ _ _ (by simp; omega)]
        simp [h4]
  · rw [if_pos hn]
    exact ⟨fun h => absurd h (fail_ne_ok _ _), fun h => absurd h.1 hn⟩

/-- a payload that the decoder gives back has SPIs of four octets: the loop counts a SPI for every
started group of four octets, the encoder writes each into `spiSize` octets -/
theorem Delete.size_of_survives {d : Delete} {data sp : Bytes} (hm : d.marshal = .ok data)
    (hu : Delete.unmarshal ⟨0, 0, 0, []⟩ ⟨data, sp⟩ = .ok d) :
    d.spis = [] ∨ d.spiSize.toNat = 4 := by
  obtain ⟨hn, hwide, rfl⟩ := Delete.marshal_eq_ok.mp hm
  rcases hwide with h0 | h4
  · exact Or.inl h0
  obtain ⟨n1, n2, hnn, hnum⟩ := exists_octets_putUint16 d.numberOfSPI
  obtain ⟨body, hbody⟩ : ∃ body, body = d.spis.flatMap fun v =>
    putUint32 v ++ List.replicate (d.spiSize.toNat - 4) 0 := ⟨_, rfl⟩
  have hlen : body.length = d.spiSize.toNat * d.spis.length := by
    rw [hbody]
    refine length_flatMap_const _ _ _ fun v => ?_
    simp only [List.length_append, length_putUint32, List.length_replicate]
    omega
  rw [hnn, ← hbody] at hu
  have hu' : Delete.unmarshal ⟨0, 0, 0, []⟩
      ⟨d.protocolID :: d.spiSize :: n1 :: n2 :: body, sp⟩ = .ok d := hu
  rw [Delete.unmarshal_cons] at hu'
  split at hu'
  · exact absurd hu' (fail_ne_ok _ _)
  obtain ⟨r, hr, hd⟩ := Outcome.map_eq_ok.mp hu'
  have hcount := spiLoop_length _ _ _ hr
  have hspis : r.2 = d.spis := congrArg Delete.spis hd
  rw [hspis, List.length_nil, Slice.len_mk] at hcount
  by_cases h0 : d.spis = []
  · exact Or.inl h0
  have hpos : 0 < d.spis.length := List.length_pos_iff.mpr h0
  right
  by_contra hne
  have h5 : 5 * d.spis.length ≤ d.spiSize.toNat * d.spis.length :=
    Nat.mul_le_mul_right _ (by omega)
  omega

theorem Delete.length_of_survives {d : Delete} {data sp : Bytes} (hm : d.marshal = .ok data)
    (hu : Delete.unmarshal ⟨0, 0, 0, []⟩ ⟨data, sp⟩ = .ok d) : data.length % 4 = 0 := by
  have hsize := Delete.size_of_survives hm hu
  obtain ⟨_, _, rfl⟩ := Delete.marshal_eq_ok.mp hm
  rcases hsize with h0 | h4
  · rw [h0]
    simp
  · have hbody := length_flatMap_const d.spis
      (fun v => putUint32 v ++ List.replicate (d.spiSize.toNat - 4) (0 : UInt8)) 4 (by simp [h4])
    rw [List.length_append, hbody]
    simp

/-! ## what the header declares -/

/-- the number of SPIs in the header -/
def spiCount (b : Bytes) : Nat := octNat ((b.drop 2).take 2)

/-- the decoder returns, reads nothing but `b`, and adds as many SPIs as it says -/
structure Delete.Declared (b : Bytes) : Prop where
  within : ∀ d : Delete, Within d.unmarshal b
  counted : ∀ (d d' : Delete) (sp : Bytes), d.unmarshal ⟨b, sp⟩ = .ok d' → b ≠ [] →
    d'.spis.length = d.spis.length + d'.numberOfSPI.toNat

/-- too short for its header or for the SPIs it declares, or four octets for each SPI -/
def Delete.Fits (b : Bytes) : Prop :=
  b.length ≤ 3 ∨ b.length < 4 + (b.getD 1 0).toNat * spiCount b ∨ b.length = 4 + 4 * spiCount b

instance (b : Bytes) : Decidable (Delete.Fits b) :=
  inferInstanceAs (Decidable (_ ∨ _ ∨ _))

theorem Delete.fits_cons (proto size n1 n2 : UInt8) (l : Bytes) :
    Delete.Fits (proto :: size :: n1 :: n2 :: l) ↔
      l.length < size.toNat * (n1.toNat * 256 + n2.toNat) ∨
        l.length = 4 * (n1.toNat * 256 + n2.toNat) := by
  have hn : spiCount (proto :: size :: n1 :: n2 :: l) = n1.toNat * 256 + n2.toNat := by
    show octNat [n1, n2] = _
    simp [octNat]
  have hs : (proto :: size :: n1 :: n2 :: l).getD 1 0 = size := rfl
  unfold Delete.Fits
  rw [hn, hs]
  simp only [List.length_cons]
  omega

/-- a decoder that does not look behind the payload has whole groups of four octets -/
theorem Delete.groups_of_within {proto size n1 n2 : UInt8} {l : Bytes}
    (hroom : ¬ l.length < size.toNat * (n1.toNat * 256 + n2.toNat))
    (h : Within (Delete.unmarshal ⟨0, 0, 0, []⟩) (proto :: size :: n1 :: n2 :: l)) :
    l.length % 4 = 0 := by
  by_contra h4
  obtain ⟨r, hr⟩ : ∃ r, r = 4 - l.length % 4 := ⟨_, rfl⟩
  have hbehind := fun (x : UInt8) => spiLoop_behind (l := l) (s := [x, x, x]) (r := r) (by omega)
    (by omega) (by simp only [List.length_cons, List.length_nil]; omega) []
  obtain ⟨i0, vs0, hvs0, hloop0⟩ := hbehind 0
  obtain ⟨i1, vs1, hvs1, hloop1⟩ := hbehind 1
  have hsame := h.spare [0, 0, 0] [1, 1, 1]
  rw [Delete.unmarshal_cons, Delete.unmarshal_cons, if_neg hroom, if_neg hroom, hloop0, hloop1] at hsame
  have hvs : vs0 = vs1 := congrArg Delete.spis (Outcome.ok.inj hsame)
  rw [hvs, ← hvs1] at hvs0
  have htake := List.append_cancel_left hvs0
  obtain ⟨k, rfl⟩ : ∃ k, r = k + 1 := ⟨r - 1, by omega⟩
  exact absurd htake (by simp)

/-- **The decoder yields what the header declares** iff the payload is refused or has four octets
for each SPI. -/
theorem Delete.declared_iff (b : Bytes) : Delete.Declared b ↔ Delete.Fits b := by
  rcases header_cases b with rfl | ⟨h0, hlt⟩ | ⟨proto, size, n1, n2, l, rfl⟩
  · exact iff_of_true ⟨fun d => .of_ok fun sp => rfl, fun d d' sp _ hne => absurd rfl hne⟩
      (Or.inl (by simp))
  · have hshort := fun (d : Delete) sp => d.unmarshal_short b sp h0 (by omega)
    refine iff_of_true ⟨fun d => .of_fail _ (hshort d), fun d d' sp h _ => ?_⟩ (Or.inl (by omega))
    rw [hshort] at h
    exact absurd h (fail_ne_ok _ _)
  rw [Delete.fits_cons]
  by_cases hroom : l.length < size.toNat * (n1.toNat * 256 + n2.toNat)
  · refine iff_of_true ⟨fun d => ?_, fun d d' sp h _ => ?_⟩ (Or.inl hroom)
    · exact .of_fail _ fun sp => by rw [Delete.unmarshal_cons, if_pos hroom]
    · rw [Delete.unmarshal_cons, if_pos hroom] at h
      exact absurd h (fail_ne_ok _ _)
  have hnum : (UInt16.ofNat (n1.toNat * 256 + n2.toNat)).toNat = n1.toNat * 256 + n2.toNat :=
    UInt16.toNat_ofNat_of_lt' (by
      have h1 : n1.toNat < 256 := n1.toNat_lt
      have h2 : n2.toNat < 256 := n2.toNat_lt
      show _ < 65536
      omega)
  rw [or_iff_right hroom]
  constructor
  · intro h
    obtain ⟨vs, rfl, hk⟩ := exists_words l (l.length / 4)
      (by have h4 := Delete.groups_of_within hroom (h.within _); omega)
    have hcount := h.counted _ _ [] (Delete.unmarshal_words ⟨0, 0, 0, []⟩ proto hroom []) (by simp)
    rw [length_flatMap_const vs putUint32 4 fun v => length_putUint32 v]
    simp only [List.nil_append, List.length_nil, Nat.zero_add, hnum] at hcount
    omega
  · intro h4
    obtain ⟨vs, rfl, hk⟩ := exists_words l _ h4
    have hread := fun (d : Delete) sp => d.unmarshal_words proto hroom sp
    refine ⟨fun d => .of_ok (hread d), fun d d' sp h _ => ?_⟩
    rw [hread] at h
    obtain rfl := Outcome.ok.inj h
    rw [List.length_append, hk, hnum]

/-- an SPI that is not complete (panic, or octets from behind the payload), and five SPIs that are
declared with no octets and not there -/
theorem Delete.not_declared :
    Delete.unmarshal ⟨0, 0, 0, []⟩ ⟨[1, 4, 0, 0, 9], []⟩ = .panic .sliceOutOfRange ∧
      Delete.unmarshal ⟨0, 0, 0, []⟩ ⟨[1, 4, 0, 0, 9], [1, 2, 3]⟩ = .ok ⟨1, 4, 0, [0x09010203]⟩ ∧
      Delete.unmarshal ⟨0, 0, 0, []⟩ ⟨[1, 0, 0, 5], []⟩ = .ok ⟨1, 0, 5, []⟩ ∧
      Delete.marshal ⟨1, 0, 5, []⟩ = fail "Number of SPI not correct" := by
  decide

end Ike

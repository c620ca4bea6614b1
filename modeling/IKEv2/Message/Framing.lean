import IKEv2.Message.Header

/-!
# Which messages are well framed

`CompleteFrame b`: the length field is the length of `b`, the octets behind the header are records,
and the chain of next-payload octets ends exactly where the data end.  The decoder checks the records
(`accepted_records`), and that the first announced payload is there.  It checks neither the length
field, nor that the chain goes on to the end of the data, nor that it ends there: an announced type 0
is an unknown payload like any other and is skipped.
-/

set_option linter.unusedVariables false

namespace Ike
open GoLang

/-- the types of the records `as`, the first of which is announced as `n` -/
def recordTypes (n : UInt8) (as : List Bytes) : List UInt8 := (n :: as.map recNext).dropLast

/-- the octets are a complete frame -/
structure CompleteFrame (b : Bytes) : Prop where
  length : headerLength b = b.length
  chain : ∃ as : List Bytes, (∀ a ∈ as, LenRec 4 a) ∧ b.drop 28 = as.flatten ∧
    -- the last record announces 0, unless it is an SK payload
    (∀ pre a, as = pre ++ [a] →
      recNext a = noNext ∨ (recordTypes (headerOf b).nextPayload as).getLast? = some IkePayloadType.SK.code) ∧
    -- no earlier record announces 0
    (∀ a ∈ as.dropLast, recNext a ≠ noNext) ∧
    -- the header announces 0 exactly when no octets follow
    ((headerOf b).nextPayload = noNext ↔ b.drop 28 = [])

theorem lenRec_of_chain {sp : Bytes} {n n' : UInt8} {as : List Bytes} {ps : IKEPayloadContainer}
    (h : PayloadChain sp n as ps n') : ∀ a ∈ as, LenRec 4 a := by
  induction h with
  | nil n => intro a ha; exact absurd ha (by simp)
  | skip ha _ _ _ ih =>
    exact List.forall_mem_cons.mpr ⟨ha, ih⟩
  | payload ha _ _ _ ih =>
    exact List.forall_mem_cons.mpr ⟨ha, ih⟩

/-- the octets behind an accepted header are records -/
theorem accepted_records {b sp : Bytes} {m : IKEMessage} (h : IKEMessage.decode [] ⟨b, sp⟩ = .ok m) :
    ∃ as : List Bytes, (∀ a ∈ as, LenRec 4 a) ∧ b.drop 28 = as.flatten ∧
      ((headerOf b).nextPayload ≠ noNext → as ≠ []) := by
  obtain ⟨_, _, hne, _, hd⟩ := message_decode_iff.mp h
  obtain ⟨as, ps, n', hc, hdrop, _⟩ := IKEPayloadContainer.decode_iff.mp hd
  refine ⟨as, lenRec_of_chain hc, hdrop, ?_⟩
  rintro h0 rfl
  rcases hne with hz | hz
  · exact h0 hz
  · exact hz hdrop

theorem mem_recordTypes {n : UInt8} {as : List Bytes} :
    noNext ∉ recordTypes n as ↔ (as = [] ∨ n ≠ noNext) ∧ ∀ a ∈ as.dropLast, recNext a ≠ noNext := by
  cases as with
  | nil => simp [recordTypes]
  | cons a as =>
    have hr : recordTypes n (a :: as) = n :: ((a :: as).map recNext).dropLast := rfl
    rw [hr, ← List.map_dropLast, List.mem_cons, not_or]
    constructor
    · rintro ⟨h1, h2⟩
      refine ⟨Or.inr fun h => h1 h.symm, ?_⟩
      intro x hx h
      exact h2 (List.mem_map.mpr ⟨x, hx, h⟩)
    · rintro ⟨h1, h2⟩
      refine ⟨?_, ?_⟩
      · rcases h1 with h1 | h1
        · exact absurd h1 (by simp)
        · exact fun h => h1 h.symm
      · intro hm
        obtain ⟨x, hx, h⟩ := List.mem_map.mp hm
        exact h2 x hx h

/-- **Accepted messages are complete frames** iff the length field is right, no record stands behind
an announced 0, and the last record is an SK payload or announces 0. -/
theorem completeFrame_iff {b sp : Bytes} {m : IKEMessage}
    (h : IKEMessage.decode [] ⟨b, sp⟩ = .ok m) :
    ∃ as : List Bytes, (∀ a ∈ as, LenRec 4 a) ∧ b.drop 28 = as.flatten ∧
      (CompleteFrame b ↔ headerLength b = b.length ∧
        noNext ∉ recordTypes (headerOf b).nextPayload as ∧
        ((as.map recNext).getLast?.getD noNext = noNext ∨
          (recordTypes (headerOf b).nextPayload as).getLast? = some IkePayloadType.SK.code)) := by
  obtain ⟨as, hrec, hdrop, hne⟩ := accepted_records h
  have hlast : ∀ pre a, as = pre ++ [a] → (as.map recNext).getLast?.getD noNext = recNext a := by
    rintro pre a rfl
    simp
  have hnil : b.drop 28 = [] ↔ as = [] := by
    rw [hdrop]
    constructor
    · intro hf
      exact lenRecs_unique (h := 4) (by omega) hrec (by simp) hf
    · rintro rfl
      rfl
  refine ⟨as, hrec, hdrop, ?_⟩
  rw [mem_recordTypes]
  constructor
  · intro hf
    obtain ⟨as', hrec', hdrop', h1, h2, h3⟩ := hf.chain
    have has : as' = as := lenRecs_unique (h := 4) (by omega) hrec' hrec (by rw [← hdrop', hdrop])
    subst has
    refine ⟨hf.length, ⟨?_, h2⟩, ?_⟩
    · by_cases h0 : as' = []
      · exact Or.inl h0
      · exact Or.inr fun hz => h0 (hnil.mp (h3.mp hz))
    · rcases List.eq_nil_or_concat as' with rfl | ⟨pre, a, hpa⟩
      · exact Or.inl rfl
      · rw [List.concat_eq_append] at hpa
        rw [hlast pre a hpa]
        exact h1 pre a hpa
  · rintro ⟨hL, ⟨h1, h2⟩, h3⟩
    refine ⟨hL, as, hrec, hdrop, ?_, h2, ?_⟩
    · intro pre a hpa
      rw [hlast pre a hpa] at h3
      exact h3
    · rw [hnil]
      constructor
      · intro hz
        rcases h1 with h1 | h1
        · exact h1
        · exact absurd hz h1
      · intro hz
        by_contra h0
        exact hne h0 hz

/-- an informational message with these octets behind the header, announced as `next` -/
def informational (next : UInt8) (length : UInt32) (payloads : Bytes) : Bytes :=
  headerOctets (putUint64 1) (putUint64 2) next 0x20 37 0x08 (putUint32 0) (putUint32 length) payloads

/-- a nonce and a notification -/
def twoRecords : Bytes := informational 40 42 [41, 0, 0, 6, 1, 2, 0, 0, 0, 8, 0, 0, 64, 0]

theorem completeFrame_nonce :
    (∃ m, IKEMessage.decode [] (Slice.ofList twoRecords) = .ok m) ∧ CompleteFrame twoRecords := by
  obtain ⟨m, hm⟩ : ∃ m, IKEMessage.decode [] (Slice.ofList twoRecords) = .ok m := ⟨_, rfl⟩
  refine ⟨⟨m, hm⟩, ?_⟩
  obtain ⟨as, hrec, hdrop, hiff⟩ := completeFrame_iff hm
  have has : as = [[41, 0, 0, 6, 1, 2], [0, 0, 0, 8, 0, 0, 64, 0]] := by
    refine lenRecs_unique (h := 4) (by omega) hrec ?_ hdrop.symm
    intro a ha
    rcases List.mem_pair.mp ha with rfl | rfl
    · exact ⟨by decide, by decide⟩
    · exact ⟨by decide, by decide⟩
  subst has
  exact hiff.mpr ⟨by decide, by decide, Or.inl (by decide)⟩

/-- a wrong length field, an announced payload that is missing, a record behind an announced 0 -/
theorem accepted_incomplete :
    (∃ m, IKEMessage.decode [] (Slice.ofList (informational 0 64 [])) = .ok m) ∧
      ¬ CompleteFrame (informational 0 64 []) ∧
    (∃ m, IKEMessage.decode [] (Slice.ofList (informational 40 34 [41, 0, 0, 6, 1, 2])) = .ok m) ∧
      ¬ CompleteFrame (informational 40 34 [41, 0, 0, 6, 1, 2]) ∧
    (∃ m, IKEMessage.decode [] (Slice.ofList (informational 0 32 [0, 0, 0, 4])) = .ok m) ∧
      ¬ CompleteFrame (informational 0 32 [0, 0, 0, 4]) := by
  refine ⟨⟨_, rfl⟩, ?_, ⟨_, rfl⟩, ?_, ⟨_, rfl⟩, ?_⟩
  · intro h
    exact absurd h.length (by decide)
  · intro h
    obtain ⟨as, hrec, hdrop, h1, _, _⟩ := h.chain
    have has : as = [[41, 0, 0, 6, 1, 2]] := by
      refine lenRecs_unique (h := 4) (by omega) hrec ?_ hdrop.symm
      intro a ha
      rw [List.mem_singleton.mp ha]
      exact ⟨by decide, by decide⟩
    rcases h1 [] [41, 0, 0, 6, 1, 2] has with h | h
    · exact absurd h (by decide)
    · rw [has] at h
      exact absurd h (by decide)
  · intro h
    obtain ⟨_, _, _, _, _, h3⟩ := h.chain
    exact absurd (h3.mp (by decide)) (by decide)

end Ike

import IKEv2.GoLang.HashStream
import IKEv2.GoLang.Loop
import IKEv2.GoLang.Proc
import IKEv2.Message.Types

/-!
# The key stream (`PrfPlus` of `security/lib/lib.go`)

`PrfPlus` takes any `hash.Hash`.  It keeps the stream made so far and takes the last block out of it;
the round number is written as one octet.

`prfPlus_eq`: the stream is that of the iterated hash, whatever was written to the object before, and
the object keeps its key.
-/

set_option linter.unusedVariables false

namespace Ike
open GoLang

section
variable {σ : Type}

structure PrfPlusState (σ : Type) where
  i : Nat
  stream : Bytes
  block : Bytes
  prf : σ

/-- one block of the stream -/
def prfPlusRound (M : HashMethods σ) (s : Bytes) (st : PrfPlusState σ) :
    Outcome (PrfPlusState σ) := do
  let prf := M.write (M.reset st.prf) (st.block ++ s ++ [UInt8.ofNat st.i])
  let stream := st.stream ++ M.sum prf
  let block ← (Slice.ofList stream).sliceLast (M.size prf)
  pure { i := st.i + 1, stream := stream, block := block.data, prf := prf }

def prfPlusLoop (M : HashMethods σ) (s : Bytes) (streamLen : Nat) (st : PrfPlusState σ) :
    Outcome (PrfPlusState σ) :=
  whileLoop (fun st => streamLen - st.stream.length) (fun st => decide (st.stream.length < streamLen))
    (prfPlusRound M s) st

def prfPlus (M : HashMethods σ) (s : Bytes) (streamLen : Nat) : Proc σ (Bytes) := fun prf =>
  match prfPlusLoop M s streamLen { i := 1, stream := [], block := [], prf := prf } with
  | .ok st => (Slice.data <$> (Slice.ofList st.stream).sliceTo streamLen, st.prf)
  | .err e => (.err e, prf)
  | .panic p => (.panic p, prf)

/-! ## the stream -/

/-- the loop variables after `k` rounds -/
structure PrfPlusState.After (st : PrfPlusState σ) (H : Bytes → Bytes) (keyed : σ → Prop) (s : Bytes)
    (k : Nat) : Prop where
  i : st.i = k + 1
  stream : st.stream = chainBlocks H s k
  block : st.block = chainBlock H s k
  keyed : keyed st.prf

variable {M : HashMethods σ} {keyed : σ → Prop} {H : Bytes → Bytes} {n : Nat}
  (hM : M.Computes keyed H n) (s : Bytes)
include hM

theorem prfPlusRound_after {k : Nat} {st : PrfPlusState σ} (h : st.After H keyed s k) :
    ∃ st', prfPlusRound M s st = .ok st' ∧ st'.After H keyed s (k + 1) := by
  obtain ⟨i, stream, block, prf⟩ := st
  obtain ⟨rfl, rfl, rfl, hk⟩ := h
  have hsum : M.sum (M.write (M.reset prf) (chainBlock H s k ++ s ++ [UInt8.ofNat (k + 1)])) =
      chainBlock H s (k + 1) := hM.sum prf _ hk
  have hsize := hM.size prf (chainBlock H s k ++ s ++ [UInt8.ofNat (k + 1)]) hk
  have hlen : (chainBlock H s (k + 1)).length = n := hM.length _
  have hcut : (Slice.ofList (chainBlocks H s (k + 1))).sliceLast n =
      .ok ⟨chainBlock H s (k + 1), []⟩ := by
    have htotal := length_chainBlocks s hM.length k
    rw [chainBlocks_succ, Slice.sliceLast_data _ (by simp [hlen]), Slice.data_ofList,
      Slice.len_ofList, List.length_append, hlen, Nat.add_sub_cancel, List.drop_left]
    rfl
  refine ⟨⟨k + 1 + 1, chainBlocks H s (k + 1), chainBlock H s (k + 1),
    M.write (M.reset prf) (chainBlock H s k ++ s ++ [UInt8.ofNat (k + 1)])⟩, ?_,
    ⟨rfl, rfl, rfl, hM.keeps prf _ hk⟩⟩
  unfold prfPlusRound
  dsimp only
  rw [hsum, hsize, ← chainBlocks_succ, hcut]
  rfl

/-- the loop ends after some rounds, with a stream that is long enough -/
theorem prfPlusLoop_after (hn : 0 < n) (streamLen : Nat) {prf : σ} (hk : keyed prf) :
    ∃ st k, prfPlusLoop M s streamLen ⟨1, [], [], prf⟩ = .ok st ∧ st.After H keyed s k ∧
      streamLen ≤ k * n := by
  have hstart : (⟨1, [], [], prf⟩ : PrfPlusState σ).After H keyed s 0 := ⟨rfl, rfl, rfl, hk⟩
  have hrun : ∃ st, prfPlusLoop M s streamLen ⟨1, [], [], prf⟩ = .ok st ∧
      (∃ k, st.After H keyed s k) ∧ decide (st.stream.length < streamLen) = false := by
    refine whileLoop_runs (I := fun st : PrfPlusState σ => ∃ k, st.After H keyed s k) ?_ ⟨0, hstart⟩
    intro st ⟨k, hst⟩ hc
    have hlt : st.stream.length < streamLen := by simpa using hc
    obtain ⟨st', hround, hst'⟩ := prfPlusRound_after hM s hst
    have hlong : st'.stream.length = st.stream.length + n := by
      rw [hst.stream, hst'.stream, length_chainBlocks s hM.length, length_chainBlocks s hM.length,
        Nat.succ_mul]
    exact ⟨st', hround, ⟨k + 1, hst'⟩, by omega⟩
  obtain ⟨st, hloop, ⟨k, hst⟩, hend⟩ := hrun
  have hle : streamLen ≤ st.stream.length := by simpa using hend
  rw [hst.stream, length_chainBlocks s hM.length] at hle
  exact ⟨st, k, hloop, hst, hle⟩

/-- **`PrfPlus` is the stream of the iterated hash**, whatever the object held before; the object
keeps its key. -/
theorem prfPlus_eq (hn : 0 < n) (streamLen : Nat) (prf : σ) (hk : keyed prf) :
    ∃ prf', prfPlus M s streamLen prf = (.ok (chainStream H s streamLen), prf') ∧ keyed prf' := by
  obtain ⟨st, k, hloop, hst, hle⟩ := prfPlusLoop_after hM s hn streamLen hk
  refine ⟨st.prf, ?_, hst.keyed⟩
  have hlen : streamLen ≤ st.stream.length := by
    rw [hst.stream, length_chainBlocks s hM.length]
    exact hle
  rw [prfPlus, hloop]
  dsimp only
  rw [Slice.sliceTo_data _ hlen, Slice.data_ofList, hst.stream, ← take_chainBlocks s hM.length hn hle]
  rfl

end

end Ike

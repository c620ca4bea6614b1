import IKEv2.GoLang.Proc
import IKEv2.GoLang.Records

/-!
# Code that dereferences no nil pointer

`NilFree x`: the outcome `x` is not the panic of a nil pointer.  The rules are tagged for `simp`, so
that the statement goes through the body of a function by unfolding it; a loop has it if its body
has it.
-/

set_option linter.unusedVariables false

namespace GoLang

def NilFree {α : Type} (x : Outcome α) : Prop := x ≠ .panic .nilDereference

section
variable {α β : Type}

@[simp] theorem nilFree_ok (a : α) : NilFree (Outcome.ok a) := by simp [NilFree]

@[simp] theorem nilFree_err (e : GoError) : NilFree (Outcome.err e : Outcome α) := by simp [NilFree]

@[simp] theorem nilFree_fail (text : String) : NilFree (fail text : Outcome α) := by
  simp [NilFree, fail]

@[simp] theorem nilFree_panic {p : Panic} :
    NilFree (Outcome.panic p : Outcome α) ↔ p ≠ .nilDereference := by
  simp [NilFree]

@[simp] theorem nilFree_wrapf {t : String} {x : Outcome α} : NilFree (x.wrapf t) ↔ NilFree x := by
  cases x <;> simp [NilFree]

@[simp] theorem nilFree_map {f : α → β} {x : Outcome α} : NilFree (f <$> x) ↔ NilFree x := by
  cases x <;> simp [NilFree]

@[simp] theorem nilFree_bind {x : Outcome α} {f : α → Outcome β} :
    NilFree (x >>= f) ↔ NilFree x ∧ ∀ a, x = .ok a → NilFree (f a) := by
  cases x <;> simp [NilFree]

@[simp] theorem nilFree_ite {c : Prop} [Decidable c] {x y : Outcome α} :
    NilFree (if c then x else y) ↔ (c → NilFree x) ∧ (¬ c → NilFree y) := by
  by_cases h : c <;> simp [h]

@[simp] theorem nilFree_index (s : Slice α) (i : Nat) : NilFree (s.index i) := by
  unfold Slice.index
  split <;> simp

@[simp] theorem nilFree_slice (s : Slice α) (i j : Nat) : NilFree (s.slice i j) := by
  simp [Slice.slice]

@[simp] theorem nilFree_sliceFrom (s : Slice α) (i : Nat) : NilFree (s.sliceFrom i) :=
  nilFree_slice s i s.len

@[simp] theorem nilFree_sliceTo (s : Slice α) (j : Nat) : NilFree (s.sliceTo j) :=
  nilFree_slice s 0 j

@[simp] theorem nilFree_sliceInit (s : Slice α) (n : Nat) : NilFree (s.sliceInit n) := by
  simp [Slice.sliceInit]

@[simp] theorem nilFree_uint16 (b : List UInt8) : NilFree (uint16 b) := by
  simp [uint16, octUint]

@[simp] theorem nilFree_uint32 (b : List UInt8) : NilFree (uint32 b) := by
  simp [uint32, octUint]

end

/-! ## loops -/

theorem nilFree_whileLoop {σ : Type} {μ : σ → Nat} {cond : σ → Bool} {body : σ → Outcome σ}
    (h : ∀ s, NilFree (body s)) (s : σ) : NilFree (whileLoop μ cond body s) := by
  have hall : ∀ n s, NilFree (iterate cond body n s) := by
    intro n
    induction n with
    | zero => intro s; simp [iterate]
    | succ n ih =>
      intro s
      rw [iterate_succ]
      simp [h, ih]
  exact hall _ s

theorem nilFree_lenLoop {β : Type} {h : Nat} {short : String} {small long : Nat → String}
    {body : β → Slice UInt8 → UInt16 → Outcome β} (hb : ∀ acc d l, NilFree (body acc d l))
    (s : Slice UInt8 × β) : NilFree (peelLoop (lenRound h short small long body) s) := by
  refine nilFree_whileLoop (fun s => ?_) s
  simp [lenRound, hb]

end GoLang

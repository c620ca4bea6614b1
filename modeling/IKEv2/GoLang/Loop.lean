import IKEv2.GoLang.Outcome

/-!
# Go loops

`whileLoop μ cond body` is `for cond { body }`: the body maps the loop variables to their next
values, or ends the function with an error or a panic.  `μ` bounds the number of rounds.  When the
body makes `μ` smaller the bound is never reached (`whileLoop_eq`), so the loop terminates and
satisfies its usual equation.

* `whileLoop_eq`     the loop unfolded once;
* `whileLoop_inv`    an invariant of the body holds when the loop ends, and `cond` is false there;
* `whileLoop_runs`   a loop whose invariant makes every round go on ends well;
* `whileLoop_rel`    two loops whose bodies move related variables in step end alike.
-/

set_option linter.unusedVariables false

namespace GoLang
variable {σ τ : Type}

def iterate (cond : σ → Bool) (body : σ → Outcome σ) : Nat → σ → Outcome σ
  | 0, s => if cond s then .panic .unterminated else .ok s
  | n+1, s => if cond s then body s >>= iterate cond body n else .ok s

def whileLoop (μ : σ → Nat) (cond : σ → Bool) (body : σ → Outcome σ) (s : σ) : Outcome σ :=
  iterate cond body (μ s + 1) s

/-- every round of the loop makes `μ` smaller -/
def Decreasing (μ : σ → Nat) (cond : σ → Bool) (body : σ → Outcome σ) : Prop :=
  ∀ s s', cond s = true → body s = .ok s' → μ s' < μ s

theorem iterate_succ (cond : σ → Bool) (body : σ → Outcome σ) (n : Nat) (s : σ) :
    iterate cond body (n+1) s = if cond s then body s >>= iterate cond body n else .ok s := rfl

section
variable {μ : σ → Nat} {cond : σ → Bool} {body : σ → Outcome σ} (hd : Decreasing μ cond body)
include hd

/-- the number of rounds does not matter once it exceeds `μ` -/
theorem iterate_stable (n m : Nat) (s : σ) (hn : μ s < n) (hm : μ s < m) :
    iterate cond body n s = iterate cond body m s := by
  induction n generalizing m s with
  | zero => exact absurd hn (Nat.not_lt_zero _)
  | succ n ih =>
    cases m with
    | zero => exact absurd hm (Nat.not_lt_zero _)
    | succ m =>
      rw [iterate_succ, iterate_succ]
      by_cases hc : cond s = true
      · rw [if_pos hc, if_pos hc]
        cases hb : body s with
        | ok s' =>
          have hlt := hd s s' hc hb
          exact ih m s' (by omega) (by omega)
        | err e => rfl
        | panic p => rfl
      · rw [if_neg hc, if_neg hc]

theorem whileLoop_eq (s : σ) :
    whileLoop μ cond body s =
      if cond s then body s >>= whileLoop μ cond body else .ok s := by
  rw [whileLoop, iterate_succ]
  by_cases hc : cond s = true
  · rw [if_pos hc, if_pos hc]
    cases hb : body s with
    | ok s' =>
      have hlt := hd s s' hc hb
      exact iterate_stable hd (μ s) (μ s' + 1) s' hlt (Nat.lt_succ_self _)
    | err e => rfl
    | panic p => rfl
  · rw [if_neg hc, if_neg hc]

theorem whileLoop_done {s : σ} (hc : cond s = false) : whileLoop μ cond body s = .ok s := by
  rw [whileLoop_eq hd, if_neg (by simp [hc])]

theorem whileLoop_step {s : σ} (hc : cond s = true) :
    whileLoop μ cond body s = body s >>= whileLoop μ cond body := by
  rw [whileLoop_eq hd, if_pos hc]

/-- induction over a loop that ends well -/
theorem whileLoop_induct {motive : σ → σ → Prop} (stop : ∀ s, cond s = false → motive s s)
    (round : ∀ s s' r, cond s = true → body s = .ok s' → whileLoop μ cond body s' = .ok r →
      motive s' r → motive s r) :
    ∀ s r, whileLoop μ cond body s = .ok r → motive s r := by
  have key : ∀ n s r, μ s < n → whileLoop μ cond body s = .ok r → motive s r := by
    intro n
    induction n with
    | zero => intro s r hn _; exact absurd hn (Nat.not_lt_zero _)
    | succ n ih =>
      intro s r hn h
      cases hc : cond s with
      | false =>
        rw [whileLoop_done hd hc] at h
        injection h with h
        exact h ▸ stop s hc
      | true =>
        rw [whileLoop_step hd hc] at h
        obtain ⟨s', hb, hr⟩ := Outcome.bind_eq_ok.mp h
        have hlt := hd s s' hc hb
        exact round s s' r hc hb hr (ih s' r (by omega) hr)
  exact fun s r h => key (μ s + 1) s r (Nat.lt_succ_self _) h

theorem whileLoop_inv {I : σ → Prop} (hI : ∀ s s', I s → cond s = true → body s = .ok s' → I s')
    {s r : σ} (hs : I s) (h : whileLoop μ cond body s = .ok r) : I r ∧ cond r = false := by
  refine whileLoop_induct hd (motive := fun s r => I s → I r ∧ cond r = false) ?_ ?_ s r h hs
  · intro s hc hs; exact ⟨hs, hc⟩
  · intro s s' r hc hb _ ih hs; exact ih (hI s s' hs hc hb)

end

/-- a loop in which, under an invariant, every round ends well and makes `μ` smaller -/
theorem whileLoop_runs {μ : σ → Nat} {cond : σ → Bool} {body : σ → Outcome σ} {I : σ → Prop}
    (hI : ∀ s, I s → cond s = true → ∃ s', body s = .ok s' ∧ I s' ∧ μ s' < μ s) {s : σ} (hs : I s) :
    ∃ r, whileLoop μ cond body s = .ok r ∧ I r ∧ cond r = false := by
  have key : ∀ n s, I s → μ s < n → ∃ r, iterate cond body n s = .ok r ∧ I r ∧ cond r = false := by
    intro n
    induction n with
    | zero => intro s _ hn; exact absurd hn (Nat.not_lt_zero _)
    | succ n ih =>
      intro s hs hn
      rw [iterate_succ]
      cases hc : cond s with
      | false => exact ⟨s, rfl, hs, hc⟩
      | true =>
        obtain ⟨s', hb, hs', hlt⟩ := hI s hs hc
        rw [if_pos rfl, hb]
        exact ih s' hs' (by omega)
  exact key (μ s + 1) s hs (Nat.lt_succ_self _)

/-- two outcomes that are the same up to a relation on the values -/
def Outcome.Rel (R : σ → τ → Prop) : Outcome σ → Outcome τ → Prop
  | .ok s, .ok t => R s t
  | .err e, .err e' => e = e'
  | .panic p, .panic p' => p = p'
  | _, _ => False

theorem Outcome.rel_self {R : σ → σ → Prop} {x : Outcome σ} (h : ∀ s, x = .ok s → R s s) :
    Outcome.Rel R x x := by
  cases x with
  | ok s => exact h s rfl
  | err e => rfl
  | panic p => rfl

theorem Outcome.Rel.bind {α β : Type} {R : σ → τ → Prop} {S : α → β → Prop} {x : Outcome σ}
    {y : Outcome τ} {f : σ → Outcome α} {g : τ → Outcome β} (h : Outcome.Rel R x y)
    (hfg : ∀ s t, R s t → Outcome.Rel S (f s) (g t)) : Outcome.Rel S (x >>= f) (y >>= g) := by
  cases x with
  | ok s =>
    cases y with
    | ok t => exact hfg s t h
    | err e => exact False.elim h
    | panic p => exact False.elim h
  | err e =>
    cases y with
    | err e' => exact h
    | ok t => exact False.elim h
    | panic p => exact False.elim h
  | panic p =>
    cases y with
    | panic p' => exact h
    | ok t => exact False.elim h
    | err e => exact False.elim h

section
variable {R : σ → τ → Prop} {cond : σ → Bool} {cond' : τ → Bool} {body : σ → Outcome σ}
  {body' : τ → Outcome τ} (hc : ∀ s t, R s t → cond s = cond' t)
  (hb : ∀ s t, R s t → cond s = true → Outcome.Rel R (body s) (body' t))
include hc hb

theorem iterate_rel (n : Nat) {s : σ} {t : τ} (hst : R s t) :
    Outcome.Rel R (iterate cond body n s) (iterate cond' body' n t) := by
  induction n generalizing s t with
  | zero =>
    unfold iterate
    rw [← hc s t hst]
    split
    · rfl
    · exact hst
  | succ n ih =>
    rw [iterate_succ, iterate_succ, ← hc s t hst]
    split
    · exact (hb s t hst ‹_›).bind fun s' t' h => ih h
    · exact hst

theorem whileLoop_rel {μ : σ → Nat} {ν : τ → Nat} {s : σ} {t : τ} (hμ : μ s = ν t) (hst : R s t) :
    Outcome.Rel R (whileLoop μ cond body s) (whileLoop ν cond' body' t) := by
  rw [whileLoop, whileLoop, hμ]
  exact iterate_rel hc hb _ hst

end

end GoLang

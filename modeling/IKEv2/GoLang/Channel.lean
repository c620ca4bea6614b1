import Mathlib.Logic.Relation

/-!
# Runs of events, and an authentic channel

A system is a function `step` that takes a state and an event.  `Along step Ok s es`: every event of
`es` meets `Ok` in the state in which it happens.

* `run_inv`     what every step keeps, every run keeps;
* `refines`     if every step is a run of an abstract system, so is every run.

`Channel` is the abstract view of a protected connection: what is delivered to a party was sent by its
peer (`Reaches.authentic`).
-/

set_option linter.unusedVariables false

namespace GoLang

section Run
variable {σ ε α : Type} (step : σ → ε → σ)

/-- the state after the events -/
def run (s : σ) (es : List ε) : σ := es.foldl step s

theorem run_inv {I : σ → Prop} (hstep : ∀ s e, I s → I (step s e)) {s : σ} (hs : I s)
    (es : List ε) : I (run step s es) := by
  induction es generalizing s with
  | nil => exact hs
  | cons e es ih => exact ih (hstep s e hs)

/-- the events of the run meet `Ok`, each in its state -/
def Along (Ok : σ → ε → Prop) : σ → List ε → Prop
  | _, [] => True
  | s, e :: es => Ok s e ∧ Along Ok (step s e) es

/-- **Refinement of runs**: `abs` takes every step with `Ok` from a state with `I` to a run of the
abstract system, so it takes every such run to one. -/
theorem refines {R : α → α → Prop} (abs : σ → α) {I : σ → Prop} {Ok : σ → ε → Prop}
    (hI : ∀ s e, I s → Ok s e → I (step s e))
    (hsim : ∀ s e, I s → Ok s e → Relation.ReflTransGen R (abs s) (abs (step s e)))
    {s : σ} (hs : I s) {es : List ε} (h : Along step Ok s es) :
    I (run step s es) ∧ Relation.ReflTransGen R (abs s) (abs (run step s es)) := by
  induction es generalizing s with
  | nil => exact ⟨hs, .refl⟩
  | cons e es ih =>
    obtain ⟨he, hes⟩ := h
    obtain ⟨hinv, hrun⟩ := ih (hI s e hs he) hes
    exact ⟨hinv, (hsim s e hs he).trans hrun⟩

end Run

/-! ## a channel -/

/-- what the parties have sent, and what was delivered to them, the last first -/
structure Channel (ρ μ : Type) where
  sent : List (ρ × μ)
  delivered : List (ρ × μ)

namespace Channel
variable {ρ μ : Type} (peer : ρ → ρ)

/-- a party sends, or gets something that its peer has sent -/
inductive Step : Channel ρ μ → Channel ρ μ → Prop
  | send (c : Channel ρ μ) (r : ρ) (m : μ) : Step c { c with sent := (r, m) :: c.sent }
  | deliver (c : Channel ρ μ) (r : ρ) (m : μ) (h : (peer r, m) ∈ c.sent) :
      Step c { c with delivered := (r, m) :: c.delivered }

def Reaches : Channel ρ μ → Channel ρ μ → Prop := Relation.ReflTransGen (Step peer)

/-- **What was delivered was sent.** -/
theorem Reaches.authentic {c d : Channel ρ μ} (h : Reaches peer c d)
    (hc : ∀ x ∈ c.delivered, (peer x.1, x.2) ∈ c.sent) :
    ∀ x ∈ d.delivered, (peer x.1, x.2) ∈ d.sent := by
  induction h with
  | refl => exact hc
  | tail _ hstep ih =>
    cases hstep with
    | send r m => exact fun x hx => List.mem_cons_of_mem _ (ih x hx)
    | deliver r m h =>
      intro x hx
      rcases List.mem_cons.mp hx with rfl | hx
      · exact h
      · exact ih x hx

end Channel

end GoLang

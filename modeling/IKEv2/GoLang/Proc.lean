import IKEv2.GoLang.Outcome

/-!
# Go methods that change their receiver

`Proc σ α` is a call on an object of type `σ`: the object is threaded through, and what has been
changed stays changed when the call ends with an error or a panic.

`Maps f x y`: the call `y` does what `x` does and returns `f` of its result.
`Same f x y`: started on objects that agree on `f`, the calls `x` and `y` give the same result and
leave objects that agree on `f`.  `Keeps g x`: the call does not change `g` of its object.
`Maintains I x`: `I` still holds of the object after the call.  All three go through a sequence of
calls step by step.
-/

set_option linter.unusedVariables false

namespace GoLang

def Proc (σ α : Type) : Type := σ → Outcome α × σ

namespace Proc
variable {σ α β : Type}

protected def bind (x : Proc σ α) (f : α → Proc σ β) : Proc σ β := fun s =>
  match x s with
  | (.ok a, s') => f a s'
  | (.err e, s') => (.err e, s')
  | (.panic p, s') => (.panic p, s')

instance : Monad (Proc σ) where
  pure a := fun s => (.ok a, s)
  bind := Proc.bind

/-- a computation that does not touch the object -/
def lift (x : Outcome α) : Proc σ α := fun s => (x, s)

/-- the object itself -/
def this : Proc σ σ := fun s => (.ok s, s)

/-- an assignment to the object -/
def modify (f : σ → σ) : Proc σ Unit := fun s => (.ok (), f s)

/-- `errors.Wrapf` on the result -/
def wrapf (text : String) (x : Proc σ α) : Proc σ α := fun s => ((x s).1.wrapf text, (x s).2)

/-- a call on the first of two objects -/
def onFst {τ : Type} (x : Proc σ α) : Proc (σ × τ) α := fun s => ((x s.1).1, (x s.1).2, s.2)

/-- a call on the second of two objects -/
def onSnd {τ : Type} (x : Proc τ α) : Proc (σ × τ) α := fun s => ((x s.2).1, s.1, (x s.2).2)

theorem lift_apply (x : Outcome α) (s : σ) : (lift x : Proc σ α) s = (x, s) := rfl

theorem bind_apply (x : Proc σ α) (f : α → Proc σ β) (s : σ) :
    (x >>= f) s = match x s with
      | (.ok a, s') => f a s'
      | (.err e, s') => (.err e, s')
      | (.panic p, s') => (.panic p, s') := rfl

/-- the result of a sequence of calls -/
theorem fst_bind (x : Proc σ α) (f : α → Proc σ β) (s : σ) :
    ((x >>= f) s).1 = (x s).1 >>= fun a => (f a (x s).2).1 := by
  rw [bind_apply]
  cases x s with
  | mk r u => cases r <;> rfl

theorem fst_lift_bind (x : Outcome α) (f : α → Proc σ β) (s : σ) :
    ((lift x >>= f) s).1 = x >>= fun a => (f a s).1 := fst_bind _ _ _

theorem exists_of_fst {x : Proc σ α} {s : σ} {a : α} (h : (x s).1 = .ok a) :
    ∃ t, x s = (.ok a, t) := ⟨(x s).2, Prod.ext h rfl⟩

theorem this_bind (f : σ → Proc σ β) (s : σ) : (this >>= f) s = f s s := rfl

theorem bind_eq_ok {x : Proc σ α} {f : α → Proc σ β} {s t : σ} {b : β} :
    (x >>= f) s = (.ok b, t) ↔ ∃ a u, x s = (.ok a, u) ∧ f a u = (.ok b, t) := by
  rw [bind_apply]
  constructor
  · intro h
    cases hx : x s with
    | mk r u =>
      rw [hx] at h
      cases r with
      | ok a => exact ⟨a, u, rfl, h⟩
      | err e => exact absurd h (by simp)
      | panic p => exact absurd h (by simp)
  · intro h
    obtain ⟨a, u, hx, hf⟩ := h
    rw [hx]
    exact hf

theorem lift_eq_ok {x : Outcome α} {s t : σ} {a : α} :
    (lift x : Proc σ α) s = (.ok a, t) ↔ x = .ok a ∧ t = s := by
  rw [lift_apply, Prod.mk.injEq, eq_comm (a := s)]

theorem lift_bind_eq_ok {x : Outcome α} {f : α → Proc σ β} {s t : σ} {b : β} :
    (lift x >>= f) s = (.ok b, t) ↔ ∃ a, x = .ok a ∧ f a s = (.ok b, t) := by
  rw [bind_eq_ok]
  constructor
  · intro h
    obtain ⟨a, u, hl, hf⟩ := h
    obtain ⟨hx, rfl⟩ := lift_eq_ok.mp hl
    exact ⟨a, hx, hf⟩
  · intro h
    obtain ⟨a, hx, hf⟩ := h
    exact ⟨a, s, lift_eq_ok.mpr ⟨hx, rfl⟩, hf⟩

/-- a computation in front of a call, cut in two -/
theorem lift_bind_bind {γ : Type} (x : Outcome α) (f : α → Outcome β) (g : β → Proc σ γ) :
    (lift (x >>= f) >>= g) = (lift x >>= fun a => lift (f a) >>= g) := by
  cases x <;> rfl

theorem modify_bind (u : σ → σ) (f : Unit → Proc σ β) (s : σ) :
    (modify u >>= f) s = f () (u s) := rfl

theorem modify_eq_ok {f : σ → σ} {s t : σ} {a : Unit} : modify f s = (.ok a, t) ↔ t = f s := by
  show (Outcome.ok (), f s) = _ ↔ _
  rw [Prod.mk.injEq, eq_comm (a := f s)]
  simp

theorem this_eq_ok {s t a : σ} : (this : Proc σ σ) s = (.ok a, t) ↔ a = s ∧ t = s := by
  show (Outcome.ok s, s) = _ ↔ _
  rw [Prod.mk.injEq, eq_comm (a := s) (b := t), Outcome.ok.injEq, eq_comm (a := s)]

theorem wrapf_eq_ok {x : Proc σ α} {t : String} {s u : σ} {a : α} :
    x.wrapf t s = (.ok a, u) ↔ x s = (.ok a, u) := by
  show ((x s).1.wrapf t, (x s).2) = _ ↔ _
  rw [Prod.ext_iff, Prod.ext_iff, Outcome.wrapf_eq_ok]

theorem onFst_eq_ok {τ : Type} {x : Proc σ α} {s u : σ × τ} {a : α} :
    onFst x s = (.ok a, u) ↔ x s.1 = (.ok a, u.1) ∧ u.2 = s.2 := by
  show ((x s.1).1, (x s.1).2, s.2) = _ ↔ _
  rw [Prod.ext_iff, Prod.ext_iff, Prod.ext_iff, and_assoc, eq_comm (a := u.2)]

theorem onSnd_eq_ok {τ : Type} {x : Proc τ α} {s u : σ × τ} {a : α} :
    onSnd x s = (.ok a, u) ↔ x s.2 = (.ok a, u.2) ∧ u.1 = s.1 := by
  show ((x s.2).1, s.1, (x s.2).2) = _ ↔ _
  rw [Prod.ext_iff, Prod.ext_iff, Prod.ext_iff, and_assoc, eq_comm (a := u.1), and_comm (a := s.1 = u.1)]

/-! ## calls that differ in what they return -/

section
variable {γ : Type} {f : α → β}

/-- `y` does what `x` does and returns `f` of its result -/
def Maps (f : α → β) (x : Proc σ α) (y : Proc σ β) : Prop := ∀ s, y s = (f <$> (x s).1, (x s).2)

theorem maps_pure (a : α) : Maps f (pure a : Proc σ α) (pure (f a)) := fun _ => rfl

theorem maps_fail (t : String) : Maps f (lift (fail t) : Proc σ α) (lift (fail t)) := fun _ => rfl

theorem maps_bind (z : Proc σ γ) {x : γ → Proc σ α} {y : γ → Proc σ β}
    (h : ∀ c, Maps f (x c) (y c)) : Maps f (z >>= x) (z >>= y) := by
  intro s
  rw [bind_apply, bind_apply]
  cases z s with
  | mk r u =>
    cases r with
    | ok c => exact h c u
    | err e => rfl
    | panic p => rfl

end

/-! ## what a call depends on and what it keeps -/

section
variable {τ υ : Type} {f : σ → τ} {g : σ → υ}

def Same (f : σ → τ) (x y : Proc σ α) : Prop :=
  ∀ s t, f s = f t → (x s).1 = (y t).1 ∧ f (x s).2 = f (y t).2

def Keeps (g : σ → υ) (x : Proc σ α) : Prop := ∀ s, g (x s).2 = g s

theorem same_lift (x : Outcome α) : Same f (lift x) (lift x) := fun _ _ h => ⟨rfl, h⟩

theorem Same.wrapf {x y : Proc σ α} (h : Same f x y) (t : String) :
    Same f (x.wrapf t) (y.wrapf t) := by
  intro s u hsu
  obtain ⟨h1, h2⟩ := h s u hsu
  exact ⟨congrArg (Outcome.wrapf t) h1, h2⟩

theorem Same.bind {x y : Proc σ α} {u v : α → Proc σ β} (h : Same f x y)
    (hu : ∀ a, Same f (u a) (v a)) : Same f (x >>= u) (y >>= v) := by
  intro s t hst
  obtain ⟨h1, h2⟩ := h s t hst
  rw [bind_apply, bind_apply]
  cases hx : x s with
  | mk r s' =>
    cases hy : y t with
    | mk r' t' =>
      rw [hx, hy] at h1 h2
      obtain rfl : r = r' := h1
      cases r with
      | ok a => exact hu a s' t' h2
      | err e => exact ⟨rfl, h2⟩
      | panic p => exact ⟨rfl, h2⟩

theorem Same.this_bind {u : σ → Proc σ β} (h : ∀ s t, f s = f t → Same f (u s) (u t)) :
    Same f (this >>= u) (this >>= u) := fun s t hst => h s t hst s t hst

/-- a value that is only tested -/
theorem Same.lift_bind {x y : Outcome α} {u v : Proc σ β}
    (hxy : (fun _ => ()) <$> x = (fun _ => ()) <$> y) (h : Same f u v) :
    Same f (lift x >>= fun _ => u) (lift y >>= fun _ => v) := by
  intro s t hst
  cases x with
  | ok a =>
    cases y with
    | ok b => exact h s t hst
    | err e => exact absurd hxy (by simp)
    | panic p => exact absurd hxy (by simp)
  | err e =>
    cases y with
    | ok b => exact absurd hxy (by simp)
    | err e' => exact ⟨congrArg Outcome.err (by simpa using hxy), hst⟩
    | panic p => exact absurd hxy (by simp)
  | panic p =>
    cases y with
    | ok b => exact absurd hxy (by simp)
    | err e => exact absurd hxy (by simp)
    | panic p' => exact ⟨congrArg Outcome.panic (by simpa using hxy), hst⟩

theorem same_modify {u : σ → σ} (h : ∀ s t, f s = f t → f (u s) = f (u t)) :
    Same f (modify u) (modify u) := fun s t hst => ⟨rfl, h s t hst⟩

theorem same_onFst {ρ : Type} (g : ρ → υ) (x : Proc σ α) :
    Same (fun s : σ × ρ => (s.1, g s.2)) (onFst x) (onFst x) := by
  intro s t hst
  obtain ⟨h1, h2⟩ := Prod.mk.inj hst
  unfold onFst
  rw [h1]
  exact ⟨rfl, Prod.ext rfl h2⟩

theorem Same.onSnd {ρ : Type} {g : ρ → υ} {x y : Proc ρ α} (h : Same g x y) :
    Same (fun s : σ × ρ => (s.1, g s.2)) (onSnd x) (onSnd y) := by
  intro s t hst
  obtain ⟨h1, h2⟩ := Prod.mk.inj hst
  obtain ⟨h3, h4⟩ := h s.2 t.2 h2
  exact ⟨h3, Prod.ext h1 h4⟩

theorem keeps_lift (x : Outcome α) : Keeps g (lift x) := fun _ => rfl

theorem keeps_this : Keeps g (this : Proc σ σ) := fun _ => rfl

theorem Keeps.wrapf {x : Proc σ α} (h : Keeps g x) (t : String) : Keeps g (x.wrapf t) := h

theorem Keeps.bind {x : Proc σ α} {u : α → Proc σ β} (h : Keeps g x) (hu : ∀ a, Keeps g (u a)) :
    Keeps g (x >>= u) := by
  intro s
  have h1 := h s
  rw [bind_apply]
  cases hx : x s with
  | mk r s' =>
    rw [hx] at h1
    cases r with
    | ok a => exact (hu a s').trans h1
    | err e => exact h1
    | panic p => exact h1

theorem keeps_modify {u : σ → σ} (h : ∀ s, g (u s) = g s) : Keeps g (modify u) := h

theorem keeps_onFst {ρ : Type} (g : ρ → υ) (x : Proc σ α) :
    Keeps (fun s : σ × ρ => g s.2) (onFst x) := fun _ => rfl

theorem Keeps.onSnd {ρ : Type} {g : ρ → υ} {x : Proc ρ α} (h : Keeps g x) :
    Keeps (fun s : σ × ρ => g s.2) (onSnd x) := fun s => h s.2

end

section
variable {I : σ → Prop}

def Maintains (I : σ → Prop) (x : Proc σ α) : Prop := ∀ s, I s → I (x s).2

theorem maintains_lift (x : Outcome α) : Maintains I (lift x) := fun _ h => h

theorem Maintains.wrapf {x : Proc σ α} (h : Maintains I x) (t : String) : Maintains I (x.wrapf t) := h

theorem after_bind {x : Proc σ α} {u : α → Proc σ β} {s : σ} (h : I (x s).2)
    (hu : ∀ a, Maintains I (u a)) : I ((x >>= u) s).2 := by
  rw [bind_apply]
  cases hx : x s with
  | mk r s' =>
    rw [hx] at h
    cases r with
    | ok a => exact hu a s' h
    | err e => exact h
    | panic p => exact h

theorem Maintains.bind {x : Proc σ α} {u : α → Proc σ β} (h : Maintains I x)
    (hu : ∀ a, Maintains I (u a)) : Maintains I (x >>= u) := fun s hs => after_bind (h s hs) hu

end

end Proc
end GoLang

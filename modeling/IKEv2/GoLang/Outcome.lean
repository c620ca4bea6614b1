import Mathlib.Logic.Basic
import Mathlib.Control.Basic

/-!
# Go calls: results, errors, panics

A call of a Go function that returns `(T, error)` ends in one of three ways: it returns a value,
it returns a non-nil `error`, or it panics.  `Outcome T` is that trichotomy as a monad, in which
an error or a panic stops the rest of the function.

`Outcome.wrapf` is `errors.Wrapf`, and `errors.Errorf` with the text of another error: a text put
in front of an error, nothing else changes.
-/

set_option linter.unusedVariables false

namespace GoLang

/-- an `error`: a text, or a text in front of its cause -/
inductive GoError where
  | errorf (text : String)
  | wrapf (text : String) (cause : GoError)
deriving DecidableEq, Repr

/-- why the run time (or a library function) stops a call; a fatal error ends the whole process, nothing
can recover from it -/
inductive Panic where
  | indexOutOfRange
  | sliceOutOfRange
  | nilDereference
  | makeSliceLen
  | cipherInput
  | unterminated
  | fatalError
deriving DecidableEq, Repr

inductive Outcome (α : Type) where
  | ok (a : α)
  | err (e : GoError)
  | panic (p : Panic)
deriving DecidableEq, Repr

namespace Outcome
variable {α β γ : Type}

protected def bind (x : Outcome α) (f : α → Outcome β) : Outcome β :=
  match x with
  | .ok a => f a
  | .err e => .err e
  | .panic p => .panic p

instance : Monad Outcome where
  pure := .ok
  bind := Outcome.bind

@[simp] theorem pure_eq (a : α) : (pure a : Outcome α) = .ok a := rfl
@[simp] theorem ok_bind (a : α) (f : α → Outcome β) : (Outcome.ok a >>= f) = f a := rfl
@[simp] theorem err_bind (e : GoError) (f : α → Outcome β) : (Outcome.err e >>= f) = .err e := rfl
@[simp] theorem panic_bind (p : Panic) (f : α → Outcome β) :
    (Outcome.panic p >>= f) = .panic p := rfl

instance : LawfulMonad Outcome := LawfulMonad.mk' Outcome
  (fun x => by cases x <;> rfl) (fun _ _ => rfl) (fun x _ _ => by cases x <;> rfl)

/-- the value of a call; `nil` when there is none -/
def value : Outcome α → Option α
  | .ok a => some a
  | _ => none

theorem value_eq_some {x : Outcome α} {a : α} : x.value = some a ↔ x = .ok a := by
  cases x with
  | ok b => simp [value]
  | err e => simp [value]
  | panic p => simp [value]

@[simp] theorem map_ok (f : α → β) (a : α) : f <$> Outcome.ok a = .ok (f a) := rfl
@[simp] theorem map_err (f : α → β) (e : GoError) : f <$> (Outcome.err e : Outcome α) = .err e := rfl
@[simp] theorem map_panic (f : α → β) (p : Panic) :
    f <$> (Outcome.panic p : Outcome α) = .panic p := rfl

theorem bind_eq_ok {x : Outcome α} {f : α → Outcome β} {b : β} :
    (x >>= f) = .ok b ↔ ∃ a, x = .ok a ∧ f a = .ok b := by
  cases x with
  | ok a => simp
  | err e => simp
  | panic p => simp

theorem map_eq_ok {x : Outcome α} {f : α → β} {b : β} :
    f <$> x = .ok b ↔ ∃ a, x = .ok a ∧ f a = b := by
  cases x with
  | ok a => simp
  | err e => simp
  | panic p => simp

theorem exists_map_eq_ok {x : Outcome α} {f : α → β} :
    (∃ b, f <$> x = .ok b) ↔ ∃ a, x = .ok a := by
  cases x with
  | ok a => exact ⟨fun _ => ⟨a, rfl⟩, fun _ => ⟨f a, rfl⟩⟩
  | err e => simp
  | panic p => simp

/-- the call returned, with a value or with an error -/
def returns : Outcome α → Prop
  | .ok _ => True
  | .err _ => True
  | .panic _ => False

/-- `errors.Wrapf(err, text)` on the error of a call -/
def wrapf (text : String) : Outcome α → Outcome α
  | .ok a => .ok a
  | .err e => .err (.wrapf text e)
  | .panic p => .panic p

@[simp] theorem wrapf_ok (t : String) (a : α) : (Outcome.ok a).wrapf t = .ok a := rfl
@[simp] theorem wrapf_err (t : String) (e : GoError) :
    (Outcome.err e : Outcome α).wrapf t = .err (.wrapf t e) := rfl
@[simp] theorem wrapf_panic (t : String) (p : Panic) :
    (Outcome.panic p : Outcome α).wrapf t = .panic p := rfl

@[simp] theorem wrapf_eq_ok {t : String} {x : Outcome α} {a : α} : x.wrapf t = .ok a ↔ x = .ok a := by
  cases x <;> simp

theorem returns_wrapf {t : String} {x : Outcome α} : (x.wrapf t).returns ↔ x.returns := by
  cases x <;> exact Iff.rfl

theorem returns_map {f : α → β} {x : Outcome α} : (f <$> x).returns ↔ x.returns := by
  cases x <;> exact Iff.rfl

theorem returns_bind {x : Outcome α} {f : α → Outcome β} :
    (x >>= f).returns ↔ x.returns ∧ ∀ a, x = .ok a → (f a).returns := by
  cases x with
  | ok a => simp [returns]
  | err e => simp [returns]
  | panic p => simp [returns]

end Outcome

/-- `errors.Errorf(text)` as the end of a call -/
def fail {α : Type} (text : String) : Outcome α := .err (.errorf text)

@[simp] theorem fail_ne_ok {α : Type} (t : String) (a : α) : fail t ≠ Outcome.ok a := by simp [fail]
@[simp] theorem fail_bind {α β : Type} (t : String) (f : α → Outcome β) :
    (fail t >>= f) = fail t := rfl

end GoLang

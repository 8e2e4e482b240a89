import Mathlib.Tactic.Basic

/-!
# Effectful programs

A service body is a program over a signature of effects: it returns a value, raises an error, or
performs one effect and resumes with what the effect gave back, a result or an error. Between two
effects nothing else can happen, so an effect is the unit of interleaving: every `await` of a
service is one.

`Program.bind` sequences, `Program.tryCatch` runs a handler on a raised error, and
`Program.attempt` gives the outcome of a program as a value.
-/

set_option autoImplicit false
set_option relaxedAutoImplicit false

namespace DinnerRush.Concurrency

/-- The effects a program may perform and the type of the result of each. -/
structure Signature where
  Effect : Type
  Result : Effect → Type

/-- A program over a signature, raising errors of type `ε` and returning an `α`. -/
inductive Program (S : Signature) (ε α : Type) : Type
  | ret (value : α)
  | raise (error : ε)
  | perform (effect : S.Effect) (resume : Except ε (S.Result effect) → Program S ε α)

namespace Program

variable {S : Signature} {ε α β γ : Type}

/-- Sequencing: an error raised by the first program skips the second. -/
def bind : Program S ε α → (α → Program S ε β) → Program S ε β
  | ret value, next => next value
  | raise error, _ => raise error
  | perform effect resume, next => perform effect fun reply ↦ (resume reply).bind next

/-- `try` with a handler for every error. -/
def tryCatch : Program S ε α → (ε → Program S ε α) → Program S ε α
  | ret value, _ => ret value
  | raise error, handler => handler error
  | perform effect resume, handler => perform effect fun reply ↦ (resume reply).tryCatch handler

/-- The outcome of a program as a value, so that a later program may depend on it. -/
def attempt : Program S ε α → Program S ε (Except ε α)
  | ret value => ret (.ok value)
  | raise error => ret (.error error)
  | perform effect resume => perform effect fun reply ↦ (resume reply).attempt

/-- The end of a program that has the given outcome. -/
def ofExcept : Except ε α → Program S ε α
  | .ok value => ret value
  | .error error => raise error

/-- The program that performs one effect. -/
def call (effect : S.Effect) : Program S ε (S.Result effect) :=
  perform effect ofExcept

instance : Monad (Program S ε) where
  pure := ret
  bind := bind

@[simp] theorem pure_eq_ret (value : α) : (pure value : Program S ε α) = ret value := rfl

@[simp] theorem bind_eq (program : Program S ε α) (next : α → Program S ε β) :
    program >>= next = program.bind next := rfl

@[simp] theorem ret_bind (value : α) (next : α → Program S ε β) :
    (ret value).bind next = next value := rfl

@[simp] theorem raise_bind (error : ε) (next : α → Program S ε β) :
    (raise error : Program S ε α).bind next = raise error := rfl

@[simp] theorem perform_bind (effect : S.Effect)
    (resume : Except ε (S.Result effect) → Program S ε α) (next : α → Program S ε β) :
    (perform effect resume).bind next = perform effect fun reply ↦ (resume reply).bind next := rfl

@[simp] theorem ret_tryCatch (value : α) (handler : ε → Program S ε α) :
    (ret value).tryCatch handler = ret value := rfl

@[simp] theorem raise_tryCatch (error : ε) (handler : ε → Program S ε α) :
    (raise error : Program S ε α).tryCatch handler = handler error := rfl

@[simp] theorem perform_tryCatch (effect : S.Effect)
    (resume : Except ε (S.Result effect) → Program S ε α) (handler : ε → Program S ε α) :
    (perform effect resume).tryCatch handler =
      perform effect fun reply ↦ (resume reply).tryCatch handler := rfl

theorem bind_assoc (program : Program S ε α) (next : α → Program S ε β)
    (last : β → Program S ε γ) :
    (program.bind next).bind last = program.bind fun value ↦ (next value).bind last := by
  induction program with
  | ret value => rfl
  | raise error => rfl
  | perform effect resume ih => exact congrArg (perform effect) (funext ih)

end Program

end DinnerRush.Concurrency

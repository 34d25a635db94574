/-! Programs that may end early: by themselves, on a failure they notice, or in undefined
behaviour. What holds of a program that gets through is stated by weakest preconditions. -/
namespace IbverbPrototype.Foundations.Halting
variable {ε α β : Type}

inductive Halt (ε : Type) where
  | exit (failure : ε)
  | undefined
  deriving DecidableEq

/-- A result is as required, an exit is allowed, undefined behaviour is not. -/
def Safe (post : α → Prop) : Except (Halt ε) α → Prop
  | .ok a => post a
  | .error (.exit _) => True
  | .error .undefined => False

/-- A test whose failure ends the program. -/
def require (passed : Bool) (failure : ε) : Except (Halt ε) Unit :=
  if passed then .ok () else .error (.exit failure)

/-- A call whose failure ends the program. -/
def orExit (result : Option α) (failure : ε) : Except (Halt ε) α :=
  match result with
  | some a => .ok a
  | none => .error (.exit failure)

/-- The use of a pointer nobody looked at before. -/
def deref (pointer : Option α) : Except (Halt ε) α :=
  match pointer with
  | some a => .ok a
  | none => .error .undefined

@[simp] theorem safe_ok (post : α → Prop) (a : α) : Safe post (.ok a : Except (Halt ε) α) ↔ post a := Iff.rfl

@[simp] theorem safe_exit (post : α → Prop) (failure : ε) : Safe post (.error (.exit failure)) ↔ True := Iff.rfl

@[simp] theorem safe_undefined (post : α → Prop) : Safe post (.error (.undefined : Halt ε)) ↔ False := Iff.rfl

/-- The rule of composition. -/
@[simp] theorem safe_bind (post : β → Prop) (first : Except (Halt ε) α) (rest : α → Except (Halt ε) β) :
    Safe post (first >>= rest) ↔ Safe (fun a => Safe post (rest a)) first := by
  cases first with
  | ok a => exact Iff.rfl
  | error halt => cases halt <;> exact Iff.rfl

@[simp] theorem safe_require (post : Unit → Prop) (passed : Bool) (failure : ε) :
    Safe post (require passed failure) ↔ (passed = true → post ()) := by
  cases passed <;> simp [require]

@[simp] theorem safe_orExit (post : α → Prop) (result : Option α) (failure : ε) :
    Safe post (orExit result failure) ↔ ∀ a, result = some a → post a := by
  cases result <;> simp [orExit]

@[simp] theorem safe_deref (post : α → Prop) (pointer : Option α) :
    Safe post (deref pointer : Except (Halt ε) α) ↔ ∃ a, pointer = some a ∧ post a := by
  cases pointer <;> simp [deref]

/-- A program that got through did so by its parts. -/
theorem bind_eq_ok {first : Except (Halt ε) α} {rest : α → Except (Halt ε) β} {b : β} :
    first >>= rest = .ok b ↔ ∃ a, first = .ok a ∧ rest a = .ok b := by
  cases first with
  | ok a => exact ⟨fun h => ⟨a,rfl,h⟩,by rintro ⟨_,⟨⟩,h⟩; exact h⟩
  | error halt => exact ⟨by rintro ⟨⟩,by rintro ⟨_,⟨⟩,_⟩⟩

theorem require_eq_ok {passed : Bool} {failure : ε} {u : Unit} : require passed failure = .ok u ↔ passed = true := by
  cases passed <;> simp [require]

theorem orExit_eq_ok {result : Option α} {failure : ε} {a : α} :
    orExit result failure = .ok a ↔ result = some a := by
  cases result <;> simp [orExit]

theorem deref_eq_ok {pointer : Option α} {a : α} : (deref pointer : Except (Halt ε) α) = .ok a ↔ pointer = some a := by
  cases pointer <;> simp [deref]

end IbverbPrototype.Foundations.Halting

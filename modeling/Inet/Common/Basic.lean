import Mathlib

/-!
# Words and errors of the C++ code

The simulation code computes on `uint32` words and reports a broken assumption by
throwing: `throw cRuntimeError(format, ...)` carries a message, `ASSERT(cond)` the
text of its condition. A function that may throw returns a `Result`; the debug
build is modelled, in which every `ASSERT` is evaluated.
-/

namespace Inet

abbrev Uint32 := BitVec 32

instance instNeZeroOne : NeZero 1 := ⟨one_ne_zero⟩

instance instNeZeroTwo : NeZero 2 := ⟨two_ne_zero⟩

/-- A one that is shifted is a mask for one bit. -/
theorem getLsbD_one_shiftLeft {w i j : ℕ} (hj : j < w) :
    (1#w <<< i).getLsbD j = decide (j = i) := by
  rw [BitVec.getLsbD_shiftLeft, BitVec.getLsbD_one, Bool.eq_iff_iff]
  simp only [Bool.and_eq_true, Bool.not_eq_true', decide_eq_true_eq, decide_eq_false_iff_not]
  omega

/-- What the code throws; `outOfFuel` is thrown by the model of a loop that has taken more
rounds than its bound, which is shown not to happen. -/
inductive Error where
  /-- `throw cRuntimeError(format, ...)`. -/
  | cRuntimeError (format : String)
  /-- `ASSERT(cond)` with a false condition. -/
  | assertion (cond : String)
  /-- `std::out_of_range`, thrown by a checked access. -/
  | outOfRange
  /-- A failed `check_and_cast`. -/
  | badCast
  /-- An access to an object that has been deleted, which C++ leaves undefined. -/
  | danglingPointer
  /-- An access through `nullptr`. -/
  | nullPointer
  /-- An iterator that does not point to an element, as in `erase(end())`. -/
  | invalidIterator
  /-- A computation in `int` that overflows. -/
  | overflow
  | outOfFuel
deriving DecidableEq

abbrev Result := Except Error

namespace Result

variable {α β : Type}

@[simp] theorem ok_bind (a : α) (f : α → Result β) : (Except.ok a : Result α) >>= f = f a := rfl

@[simp] theorem error_bind (e : Error) (f : α → Result β) :
    (Except.error e : Result α) >>= f = .error e := rfl

theorem bind_eq_ok {m : Result α} {f : α → Result β} {b : β} :
    m >>= f = .ok b ↔ ∃ a, m = .ok a ∧ f a = .ok b := by
  cases m <;> simp

theorem bind_eq_error {m : Result α} {f : α → Result β} {e : Error} :
    m >>= f = .error e ↔ m = .error e ∨ ∃ a, m = .ok a ∧ f a = .error e := by
  cases m <;> simp

theorem map_eq_ok {m : Result α} {f : α → β} {b : β} :
    f <$> m = .ok b ↔ ∃ a, m = .ok a ∧ f a = b := by
  cases m <;> simp [Functor.map, Except.map]

end Result

export Result (ok_bind error_bind bind_eq_ok bind_eq_error)

/-- The value of a computation in `int`. -/
def checkInt (x : ℤ) : Result ℤ :=
  if -2 ^ 31 ≤ x ∧ x < 2 ^ 31 then .ok x else .error .overflow

theorem checkInt_of {x : ℤ} (h : -2 ^ 31 ≤ x ∧ x < 2 ^ 31) : checkInt x = .ok x := if_pos h

/-- The conversion of a longer integer to `int`. -/
def toInt (x : ℤ) : ℤ := x.bmod (2 ^ 32)

theorem toInt_of {x : ℤ} (h : -2 ^ 31 ≤ x ∧ x < 2 ^ 31) : toInt x = x := by
  rw [toInt, Int.bmod_eq_of_le] <;> omega

/-- The conversion of an integer to `ushort`. -/
def toUshort (x : ℤ) : ℕ := (x % 2 ^ 16).toNat

theorem toUshort_of {x : ℤ} (h : 0 ≤ x ∧ x < 2 ^ 16) : toUshort x = x.toNat := by
  rw [toUshort, Int.emod_eq_of_lt h.1 h.2]

/-- `ASSERT(cond)`. -/
def assert (cond : Bool) (text : String) : Result Unit :=
  if cond then .ok () else .error (.assertion text)

@[simp] theorem assert_true (text : String) : assert true text = .ok () := rfl

theorem assert_of {cond : Bool} (h : cond = true) (text : String) : assert cond text = .ok () := by
  rw [h, assert_true]

theorem assert_eq_ok {cond : Bool} {text : String} {u : Unit} :
    assert cond text = .ok u ↔ cond = true := by
  cases cond <;> simp [assert]

end Inet

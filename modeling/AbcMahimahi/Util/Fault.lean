/-
How the C++ code fails (a failed `assert`, a thrown `runtime_error`, a `std::out_of_range` of the
standard library) and the machine integers it counts in: `int` and `unsigned int` wrap modulo
`2 ^ 32`, `uint64_t` modulo `2 ^ 64`.
-/
import AbcMahimahi.Lib.Bytes
import AbcMahimahi.Lib.Run

namespace AbcMahimahi

/-- What ends a call instead of a return. -/
inductive Fault where
  /-- `assert( expr )` failed. -/
  | assertion (expr : String)
  /-- `runtime_error( what )` was thrown. -/
  | runtimeError (what : Bytes)
  /-- `unix_error( attempt )` was thrown. -/
  | unixError (attempt : String)
  /-- The standard library threw `std::out_of_range`. -/
  | outOfRange
  /-- A loop never ended. -/
  | endless
  deriving DecidableEq, Repr

/-- `assert( expr )`. -/
def check (expr : String) (b : Bool) : Except Fault Unit :=
  if b then .ok () else .error (.assertion expr)

/-- A call of the standard library that throws `std::out_of_range`. -/
def orOutOfRange {α : Type} : Option α → Except Fault α
  | some a => .ok a
  | none => .error .outOfRange

/-- A fault that is no exception of the code's own making, so it has no message. -/
inductive Fault.Broken : Fault → Prop
  | assertion (expr : String) : Broken (.assertion expr)
  | outOfRange : Broken .outOfRange
  | endless : Broken .endless

/-- The value stored in an `int`. -/
def cInt (x : Int) : Int := Int.bmod x (2 ^ 32)

/-- The value stored in an `unsigned int` or `uint32_t`. -/
def u32 (n : Nat) : Nat := n % 2 ^ 32

/-- The value stored in a `uint64_t`. -/
def u64 (n : Nat) : Nat := n % 2 ^ 64

/-- `a - b` on `uint32_t`. -/
def sub32 (a b : Nat) : Nat := (a + 2 ^ 32 - b) % 2 ^ 32

/-- `a - b` on `uint64_t`. -/
def sub64 (a b : Nat) : Nat := (a + 2 ^ 64 - b) % 2 ^ 64

theorem cInt_eq {x : Int} (h : -2 ^ 31 ≤ x) (h' : x < 2 ^ 31) : cInt x = x := by
  unfold cInt
  rw [Int.bmod_def]
  split <;> omega

theorem u32_eq {n : Nat} (h : n < 2 ^ 32) : u32 n = n := Nat.mod_eq_of_lt h

theorem u64_eq {n : Nat} (h : n < 2 ^ 64) : u64 n = n := Nat.mod_eq_of_lt h

theorem sub32_eq {a b : Nat} (h : b ≤ a) (ha : a < 2 ^ 32) : sub32 a b = a - b := by
  unfold sub32; omega

theorem sub64_eq {a b : Nat} (h : b ≤ a) (ha : a < 2 ^ 64) : sub64 a b = a - b := by
  unfold sub64; omega

theorem check_ok {expr : String} {b : Bool} (h : check expr b = .ok ()) : b = true := by
  unfold check at h
  split at h
  · assumption
  · cases h

theorem check_of {expr : String} {b : Bool} (h : b = true) : check expr b = .ok () := if_pos h

@[simp] theorem check_true (expr : String) : check expr true = .ok () := rfl

theorem throws_check (expr : String) (b : Bool) : Run.Throws Fault.Broken (check expr b) := by
  unfold check
  split
  · exact Run.throws_ok ()
  · exact Run.throws_error (.assertion expr)

/-! ## Calls that return or throw -/

/-- An exception that a caller can catch, not a failed assertion or a loop without an end. -/
inductive Fault.Thrown : Fault → Prop
  | runtimeError (what : Bytes) : Thrown (.runtimeError what)
  | unixError (attempt : String) : Thrown (.unixError attempt)
  | outOfRange : Thrown .outOfRange

/-- The call returns a value with the property, or throws. -/
inductive Returns {α : Type} (P : α → Prop) : Except Fault α → Prop
  | ok {a : α} (h : P a) : Returns P (.ok a)
  | error {e : Fault} (h : e.Thrown) : Returns P (.error e)

theorem Returns.bind {α β : Type} {P : α → Prop} {Q : β → Prop} {x : Except Fault α} {f : α → Except Fault β}
    (h : Returns P x) (hf : ∀ a, P a → Returns Q (f a)) : Returns Q (x >>= f) := by
  cases h with
  | ok h => exact hf _ h
  | error h => exact .error h

theorem Returns.imp {α : Type} {P Q : α → Prop} {x : Except Fault α} (h : Returns P x) (hPQ : ∀ a, P a → Q a) :
    Returns Q x := by
  cases h with
  | ok h => exact .ok (hPQ _ h)
  | error h => exact .error h

theorem Returns.map {α β : Type} {P : α → Prop} {Q : β → Prop} {x : Except Fault α} {f : α → β} (h : Returns P x)
    (hf : ∀ a, P a → Q (f a)) : Returns Q (f <$> x) := by
  cases h with
  | ok h => exact .ok (hf _ h)
  | error h => exact .error h

/-- What a return value is known to be can be used. -/
theorem Returns.and_ok {α : Type} {P Q : α → Prop} {x : Except Fault α} (h : Returns P x)
    (hQ : ∀ a, x = .ok a → Q a) : Returns (fun a => P a ∧ Q a) x := by
  cases h with
  | ok h => exact .ok ⟨h, hQ _ rfl⟩
  | error h => exact .error h

/-! ## Steps without a meaning -/

/-- What can go wrong where the code is also watched for steps that the language leaves undefined. -/
inductive Hazard where
  | fault (f : Fault)
  /-- An integer was divided by zero. -/
  | divisionByZero
  /-- A vector was indexed past its end. -/
  | outOfBounds
  /-- A double was converted to an `int` that cannot hold it. -/
  | conversion
  /-- A signed integer left its range. -/
  | overflow
  deriving DecidableEq, Repr

/-- A call, where it is watched. -/
def watched {α : Type} : Except Fault α → Except Hazard α
  | .ok a => .ok a
  | .error e => .error (.fault e)

@[simp] theorem watched_ok {α : Type} (a : α) : watched (.ok a : Except Fault α) = .ok a := rfl

theorem watched_eq_ok {α : Type} {x : Except Fault α} {a : α} (h : watched x = .ok a) : x = .ok a := by
  cases x with
  | ok b => cases h; rfl
  | error e => cases h

/-- The integer next to a double on the side of zero. -/
def truncate (x : ℚ) : Int := if x < 0 then x.ceil else x.floor

/-- `int( x )`. -/
def toInt (x : ℚ) : Except Hazard Int :=
  if -2 ^ 31 ≤ truncate x ∧ truncate x < 2 ^ 31 then .ok (truncate x) else .error .conversion

/-- A fault is no undefined step. -/
theorem watched_error {α : Type} {x : Except Fault α} {e : Hazard} (h : watched x = .error e) : ∃ f, e = .fault f := by
  cases x with
  | ok b => cases h
  | error f => cases h; exact ⟨f, rfl⟩

end AbcMahimahi

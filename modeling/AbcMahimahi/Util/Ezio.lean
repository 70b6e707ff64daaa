/-
`myatoi` over the C library's `strtol`: white space, a sign, for base 16 an optional `0x`, then the
longest run of digits. The result is a 64-bit `long`; a value outside it sets `errno`.
-/
import Mathlib.Data.List.TakeWhile
import AbcMahimahi.Util.Fault

namespace AbcMahimahi

open Bytes

/-! ## strtol -/

/-- `isspace` of the C locale. -/
def isSpace (b : UInt8) : Bool := b = 32 || (9 ≤ b && b ≤ 13)

/-- The value of a digit, in bases up to 36. -/
def digitValue (b : UInt8) : Option Nat :=
  if 48 ≤ b && b ≤ 57 then some (b.toNat - 48)
  else if 97 ≤ b && b ≤ 122 then some (b.toNat - 87)
  else if 65 ≤ b && b ≤ 90 then some (b.toNat - 55)
  else none

def isDigit (base : Nat) (b : UInt8) : Bool := (digitValue b).any (· < base)

/-- The number that a string of digits stands for. -/
def numeral (base : Nat) (digits : Bytes) : Nat :=
  digits.foldl (fun n b => n * base + (digitValue b).getD 0) 0

/-- The bytes are digits of the base, for that number. -/
structure Digits (base : Nat) (value : Bytes) (n : Nat) : Prop where
  nonempty : value ≠ []
  digits : value.all (isDigit base) = true
  number : numeral base value = n

/-- The bytes are a decimal number of that value. -/
abbrev Decimal : Bytes → Nat → Prop := Digits 10

/-- Is the sign a minus, and what comes after the sign. -/
def takeSign : Bytes → Bool × Bytes
  | 45 :: rest => (true, rest)
  | 43 :: rest => (false, rest)
  | s => (false, s)

/-- Skip `0x` where a digit of base 16 follows it. -/
def skipHexPrefix : Bytes → Bytes
  | 48 :: x :: d :: rest => if (x = 120 ∨ x = 88) ∧ isDigit 16 d then d :: rest else 48 :: x :: d :: rest
  | s => s

def skipPrefix (base : Nat) (s : Bytes) : Bytes := if base = 16 then skipHexPrefix s else s

/-- `strtol`: the value, `none` for `ERANGE`, and the bytes from `end` on. A string in which no digit
is converted gives zero and stays whole. -/
def strtol (str : Bytes) (base : Nat) : Option Int × Bytes :=
  let (negative, s) := takeSign (str.dropWhile isSpace)
  let s := skipPrefix base s
  let digits := s.takeWhile (isDigit base)
  if digits = [] then (some 0, str)
  else
    let n : Int := if negative then -(numeral base digits : Int) else numeral base digits
    (if -2 ^ 63 ≤ n ∧ n < 2 ^ 63 then some n else none, s.dropWhile (isDigit base))

/-- `myatoi`. -/
def myatoi (str : Bytes) (base : Nat) : Except Fault Int :=
  if str = [] then throw (.runtimeError (ascii "Invalid integer string: empty"))
  else
    match strtol str base with
    | (none, _) => throw (.unixError "strtol")
    | (some ret, rest) =>
      if rest ≠ [] then throw (.runtimeError (ascii "Invalid integer: " ++ str)) else pure ret

/-- What `myatoi` throws is an exception. -/
theorem returns_myatoi (value : Bytes) (base : Nat) : Returns (fun _ => True) (myatoi value base) := by
  unfold myatoi
  split
  · exact .error (.runtimeError _)
  · split
    · exact .error (.unixError _)
    · split
      · exact .error (.runtimeError _)
      · exact .ok trivial

/-! ## A string of digits -/

theorem digit_of_isDigit {base : Nat} {b : UInt8} (h : isDigit base b = true) :
    48 ≤ b ∧ b ≤ 57 ∨ 97 ≤ b ∧ b ≤ 122 ∨ 65 ≤ b ∧ b ≤ 90 := by
  unfold isDigit digitValue at h
  split at h
  · rename_i hd; left; simpa using hd
  · split at h
    · rename_i hd; right; left; simpa using hd
    · split at h
      · rename_i hd; right; right; simpa using hd
      · simp at h

theorem isSpace_digit {base : Nat} {b : UInt8} (h : isDigit base b = true) : isSpace b = false := by
  have hb := digit_of_isDigit h
  unfold isSpace
  simp only [UInt8.le_iff_toNat_le, UInt8.reduceToNat] at hb
  have hne : b ≠ 32 := by rintro rfl; simp at hb
  simp only [hne, decide_false, Bool.false_or, Bool.and_eq_false_iff, decide_eq_false_iff_not, UInt8.le_iff_toNat_le,
    UInt8.reduceToNat]
  omega

theorem takeSign_digit {base : Nat} {b : UInt8} (h : isDigit base b = true) (bs : Bytes) :
    takeSign (b :: bs) = (false, b :: bs) := by
  have hb := digit_of_isDigit h
  unfold takeSign
  split
  · rename_i heq; cases heq; simp at hb
  · rename_i heq; cases heq; simp at hb
  · rfl

/-- No digit of base 16 is an `x`, so digits alone have no prefix to skip. -/
theorem skipHexPrefix_digits : ∀ {ds : Bytes}, ds.all (isDigit 16) = true → skipHexPrefix ds = ds := by
  intro ds h
  unfold skipHexPrefix
  split
  · rename_i x d rest
    rw [if_neg]
    rintro ⟨hx, -⟩
    simp only [List.all_cons, Bool.and_eq_true] at h
    rcases hx with rfl | rfl
    · exact absurd h.2.1 (by decide)
    · exact absurd h.2.1 (by decide)
  · rfl

/-- `myatoi` reads a string of digits as its number, when a `long` holds it. -/
theorem myatoi_digits {base : Nat} {ds : Bytes} (hne : ds ≠ []) (h : ds.all (isDigit base) = true)
    (hfit : numeral base ds < 2 ^ 63) : myatoi ds base = .ok (numeral base ds) := by
  obtain ⟨b, bs, rfl⟩ := List.exists_cons_of_ne_nil hne
  have hb : isDigit base b = true := (List.all_eq_true.1 h) b (List.mem_cons_self ..)
  have hspace : (b :: bs).dropWhile isSpace = b :: bs := by
    rw [List.dropWhile_cons_of_neg (by rw [isSpace_digit hb]; decide)]
  have hskip : skipPrefix base (b :: bs) = b :: bs := by
    unfold skipPrefix
    split
    · rename_i hbase; subst hbase; exact skipHexPrefix_digits h
    · rfl
  have hrest : (b :: bs).dropWhile (isDigit base) = [] := List.dropWhile_eq_nil_iff.2 (List.all_eq_true.1 h)
  have hlong : -2 ^ 63 ≤ (numeral base (b :: bs) : Int) ∧ (numeral base (b :: bs) : Int) < 2 ^ 63 := by omega
  unfold myatoi strtol
  rw [if_neg hne, hspace, takeSign_digit hb]
  dsimp only
  rw [hskip, List.takeWhile_eq_self_iff.2 (List.all_eq_true.1 h), if_neg hne, hrest]
  simp only [Bool.false_eq_true, if_false, if_pos hlong]
  rfl

theorem repr_digit {k : Nat} (hk : k < 10) : ∃ b, ascii k.repr = [b] ∧ isDigit 10 b = true ∧ digitValue b = some k := by
  interval_cases k <;> exact ⟨_, rfl, by decide, by decide⟩

/-- A number as it is printed. -/
theorem decimal_repr (n : Nat) : Decimal (ascii n.repr) n := by
  induction n using Nat.strong_induction_on with
  | _ n ih =>
    by_cases hn : n < 10
    · obtain ⟨b, hb, hdigit, hvalue⟩ := repr_digit hn
      rw [hb]
      exact ⟨List.cons_ne_nil b [], by simpa using hdigit, by simp [numeral, hvalue]⟩
    · obtain ⟨b, hb, hdigit, hvalue⟩ := repr_digit (Nat.mod_lt n (by decide : 0 < 10))
      have hsplit : ascii n.repr = ascii (n / 10).repr ++ [b] := by
        rw [Nat.repr_eq_repr_append_repr (by omega), ← hb]
        unfold ascii
        rw [String.toList_append, List.map_append]
      have hfront := ih (n / 10) (by omega)
      have hnumber := hfront.number
      unfold numeral at hnumber
      rw [hsplit]
      refine ⟨List.append_ne_nil_of_left_ne_nil hfront.nonempty _, ?_, ?_⟩
      · rw [List.all_append, hfront.digits]
        simpa using hdigit
      · unfold numeral
        rw [List.foldl_append, hnumber, List.foldl_cons, List.foldl_nil, hvalue, Option.getD_some]
        omega

/-! ## What is accepted -/

/-- A sign in front of a number, and white space in front of the sign. -/
inductive Signed (Unsigned : Bytes → Nat → Prop) : Bytes → Int → Prop
  | plain {ds : Bytes} {n : Nat} (h : Unsigned ds n) : Signed Unsigned ds n
  | plus {ds : Bytes} {n : Nat} (h : Unsigned ds n) : Signed Unsigned (43 :: ds) n
  | minus {ds : Bytes} {n : Nat} (h : Unsigned ds n) : Signed Unsigned (45 :: ds) (-n)
  | space {b : UInt8} {s : Bytes} {n : Int} (hb : isSpace b = true) (h : Signed Unsigned s n) : Signed Unsigned (b :: s) n

/-- The bytes are a decimal integer of that value, perhaps after white space and a sign. -/
abbrev SignedDecimal : Bytes → Int → Prop := Signed Decimal

/-- Digits of base 16, perhaps after `0x`. -/
inductive Hexadecimal : Bytes → Nat → Prop
  | plain {ds : Bytes} {n : Nat} (h : Digits 16 ds n) : Hexadecimal ds n
  | prefixed {x : UInt8} {ds : Bytes} {n : Nat} (hx : x = 120 ∨ x = 88) (h : Digits 16 ds n) : Hexadecimal (48 :: x :: ds) n

/-- The value of a number with that sign. -/
def signed (negative : Bool) (n : Nat) : Int := if negative then -(n : Int) else n

theorem takeSign_cases (s : Bytes) : (∃ rest, s = 45 :: rest ∧ takeSign s = (true, rest)) ∨
    (∃ rest, s = 43 :: rest ∧ takeSign s = (false, rest)) ∨ takeSign s = (false, s) := by
  unfold takeSign
  split
  · exact Or.inl ⟨_, rfl, rfl⟩
  · exact Or.inr (Or.inl ⟨_, rfl, rfl⟩)
  · exact Or.inr (Or.inr rfl)

/-- What `strtol` takes for a number after white space and a sign. -/
structure Unsigned (base : Nat) (Number : Bytes → Nat → Prop) : Prop where
  iff : ∀ s n, Number s n ↔ Digits base (skipPrefix base s) n
  first : ∀ s n, Number s n → ∃ b bs, s = b :: bs ∧ isDigit base b = true

theorem Digits.first {base n : Nat} {ds : Bytes} (h : Digits base ds n) : ∃ b bs, ds = b :: bs ∧ isDigit base b = true := by
  obtain ⟨b, bs, rfl⟩ := List.exists_cons_of_ne_nil h.nonempty
  exact ⟨b, bs, rfl, (List.all_eq_true.1 h.digits) b (List.mem_cons_self ..)⟩

theorem unsigned_decimal : Unsigned 10 Decimal where
  iff _ _ := Iff.rfl
  first _ _ h := h.first

theorem skipHexPrefix_cases (s : Bytes) : skipHexPrefix s = s ∨
    ∃ x ds, s = 48 :: x :: ds ∧ (x = 120 ∨ x = 88) ∧ skipHexPrefix s = ds := by
  unfold skipHexPrefix
  split
  · rename_i x d rest
    split
    · rename_i hx
      exact Or.inr ⟨x, d :: rest, rfl, hx.1, rfl⟩
    · exact Or.inl rfl
  · exact Or.inl rfl

theorem unsigned_hexadecimal : Unsigned 16 Hexadecimal where
  iff s n := by
    constructor
    · intro h
      cases h with
      | plain h =>
        rw [show skipPrefix 16 s = s from skipHexPrefix_digits h.digits]
        exact h
      | @prefixed x ds n hx h =>
        obtain ⟨d, ds, rfl, hd⟩ := h.first
        have hskip : skipPrefix 16 (48 :: x :: d :: ds) =
          if (x = 120 ∨ x = 88) ∧ isDigit 16 d = true then d :: ds else 48 :: x :: d :: ds := rfl
        rw [hskip, if_pos ⟨hx, hd⟩]
        exact h
    · intro h
      rcases skipHexPrefix_cases s with hs | ⟨x, ds, rfl, hx, hs⟩
      · rw [show skipPrefix 16 s = s from hs] at h
        exact .plain h
      · rw [show skipPrefix 16 (48 :: x :: ds) = ds from hs] at h
        exact .prefixed hx h
  first s n h := by
    cases h with
    | plain h => exact h.first
    | prefixed hx h => exact ⟨48, _, rfl, by decide⟩

section

variable {base : Nat} {Number : Bytes → Nat → Prop} {s : Bytes} {n m : Int}

theorem signed_iff (hu : Unsigned base Number) : Signed Number s n ↔
    ∃ k, Number (takeSign (s.dropWhile isSpace)).2 k ∧ n = signed (takeSign (s.dropWhile isSpace)).1 k := by
  constructor
  · intro h
    induction h with
    | @plain ds n h =>
      obtain ⟨b, bs, rfl, hb⟩ := hu.first ds n h
      rw [List.dropWhile_cons_of_neg (by rw [isSpace_digit hb]; decide), takeSign_digit hb]
      exact ⟨n, h, rfl⟩
    | @plus ds n h => exact ⟨n, h, rfl⟩
    | @minus ds n h => exact ⟨n, h, rfl⟩
    | space hb _ ih =>
      rw [List.dropWhile_cons_of_pos hb]
      exact ih
  · induction s with
    | nil =>
      rintro ⟨k, h, -⟩
      obtain ⟨b, bs, hnil, -⟩ := hu.first _ _ h
      cases hnil
    | cons b s ih =>
      rintro ⟨k, h, hn⟩
      by_cases hb : isSpace b = true
      · rw [List.dropWhile_cons_of_pos hb] at h hn
        exact .space hb (ih ⟨k, h, hn⟩)
      · rw [List.dropWhile_cons_of_neg hb] at h hn
        rcases takeSign_cases (b :: s) with ⟨rest, hs, hsign⟩ | ⟨rest, hs, hsign⟩ | hsign
        · rw [hsign] at h hn
          rw [hs, hn]
          exact .minus h
        · rw [hsign] at h hn
          rw [hs, hn]
          exact .plus h
        · rw [hsign] at h hn
          rw [hn]
          exact .plain h

/-- A string reads as one integer at most. -/
theorem Signed.unique (hu : Unsigned base Number) (hn : Signed Number s n) (hm : Signed Number s m) : n = m := by
  obtain ⟨k, hk, rfl⟩ := (signed_iff hu).1 hn
  obtain ⟨l, hl, rfl⟩ := (signed_iff hu).1 hm
  rw [← ((hu.iff _ _).1 hk).number, ← ((hu.iff _ _).1 hl).number]

theorem SignedDecimal.unique (hn : SignedDecimal s n) (hm : SignedDecimal s m) : n = m := Signed.unique unsigned_decimal hn hm

theorem Signed.nonempty (hu : Unsigned base Number) (h : Signed Number s n) : s ≠ [] := by
  cases h with
  | plain h =>
    obtain ⟨b, bs, rfl, -⟩ := hu.first _ _ h
    exact List.cons_ne_nil _ _
  | plus h => exact List.cons_ne_nil _ _
  | minus h => exact List.cons_ne_nil _ _
  | space hb h => exact List.cons_ne_nil _ _

/-- Spaces alone are no number. -/
theorem SignedDecimal.not_blank (h : SignedDecimal s n) : ∃ b ∈ s, b ≠ 32 := by
  induction h with
  | @plain ds n h =>
    obtain ⟨b, bs, rfl, hb⟩ := h.first
    refine ⟨b, List.mem_cons_self .., ?_⟩
    rintro rfl
    exact absurd hb (by decide)
  | plus h => exact ⟨43, List.mem_cons_self .., by decide⟩
  | minus h => exact ⟨45, List.mem_cons_self .., by decide⟩
  | space hb _ ih =>
    obtain ⟨b, hmem, hne⟩ := ih
    exact ⟨b, List.mem_cons_of_mem _ hmem, hne⟩

theorem strtol_eq (s : Bytes) (base : Nat) : strtol s base =
    if (skipPrefix base (takeSign (s.dropWhile isSpace)).2).takeWhile (isDigit base) = [] then (some 0, s)
    else
      (if -2 ^ 63 ≤ signed (takeSign (s.dropWhile isSpace)).1
            (numeral base ((skipPrefix base (takeSign (s.dropWhile isSpace)).2).takeWhile (isDigit base))) ∧
          signed (takeSign (s.dropWhile isSpace)).1
            (numeral base ((skipPrefix base (takeSign (s.dropWhile isSpace)).2).takeWhile (isDigit base))) < 2 ^ 63
        then some (signed (takeSign (s.dropWhile isSpace)).1
            (numeral base ((skipPrefix base (takeSign (s.dropWhile isSpace)).2).takeWhile (isDigit base))))
        else none,
        (skipPrefix base (takeSign (s.dropWhile isSpace)).2).dropWhile (isDigit base)) := rfl

/-- `strtol` converts the whole of a string that is an integer of the base, if a `long` holds it. -/
theorem strtol_whole_iff (hu : Unsigned base Number) (hs : s ≠ []) :
    strtol s base = (some n, []) ↔ Signed Number s n ∧ -2 ^ 63 ≤ n ∧ n < 2 ^ 63 := by
  have hiff := hu.iff (takeSign (s.dropWhile isSpace)).2
  rw [signed_iff hu, strtol_eq]
  simp only [hiff]
  generalize skipPrefix base (takeSign (s.dropWhile isSpace)).2 = ds
  generalize (takeSign (s.dropWhile isSpace)).1 = negative
  constructor
  · intro h
    split at h
    · cases h
      exact absurd rfl hs
    · rename_i hds
      obtain ⟨hvalue, hrest⟩ := Prod.mk.inj h
      have hall := List.dropWhile_eq_nil_iff.1 hrest
      rw [List.takeWhile_eq_self_iff.2 hall] at hds hvalue
      split at hvalue
      · rename_i hlong
        cases hvalue
        exact ⟨⟨numeral base ds, ⟨hds, List.all_eq_true.2 hall, rfl⟩, rfl⟩, hlong⟩
      · cases hvalue
  · rintro ⟨⟨k, h, rfl⟩, hlong⟩
    have hall := List.all_eq_true.1 h.digits
    rw [List.takeWhile_eq_self_iff.2 hall, List.dropWhile_eq_nil_iff.2 hall, if_neg h.nonempty, h.number, if_pos hlong]

/-- `myatoi` accepts the integers of the base that a `long` holds. -/
theorem myatoi_iff (hu : Unsigned base Number) : myatoi s base = .ok n ↔ Signed Number s n ∧ -2 ^ 63 ≤ n ∧ n < 2 ^ 63 := by
  unfold myatoi
  by_cases hs : s = []
  · rw [if_pos hs]
    constructor
    · intro h
      cases h
    · rintro ⟨h, -⟩
      exact absurd hs (h.nonempty hu)
  · rw [if_neg hs, ← strtol_whole_iff hu hs]
    generalize strtol s base = converted
    obtain ⟨value, rest⟩ := converted
    cases value with
    | none => simp
    | some ret =>
      dsimp only
      by_cases hrest : rest = []
      · rw [if_neg (not_not.2 hrest), hrest]
        constructor
        · intro h
          cases h
          rfl
        · intro h
          cases h
          rfl
      · rw [if_pos hrest]
        constructor
        · intro h
          cases h
        · intro h
          exact absurd (Prod.mk.inj h).2 hrest

theorem myatoi_ok_iff : myatoi s 10 = .ok n ↔ SignedDecimal s n ∧ -2 ^ 63 ≤ n ∧ n < 2 ^ 63 := myatoi_iff unsigned_decimal

end

end AbcMahimahi

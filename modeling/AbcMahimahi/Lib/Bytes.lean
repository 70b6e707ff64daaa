/-
Byte strings with the search and slicing of a C++ `std::string`: `find` (first occurrence,
`none` for `npos`), `substr` (`none` where the C++ call throws `std::out_of_range`) and
`findFirstNotOf`. The laws say where an occurrence lies, that the first occurrence does not
move when bytes are appended, and that a line free of CRLF ends at the CRLF put after it.
-/
import Mathlib.Tactic

/-- A string of bytes. -/
abbrev Bytes := List UInt8

namespace Bytes

/-- The bytes of an ASCII literal. -/
def ascii (s : String) : Bytes := s.toList.map fun c => UInt8.ofNat c.toNat

/-- CR LF. -/
def crlf : Bytes := [13, 10]

@[simp] theorem length_crlf : crlf.length = 2 := rfl

/-- `std::string::find`: the index of the first occurrence, `none` for `npos`. -/
def find (needle : Bytes) : Bytes → Option Nat
  | [] => if needle.isPrefixOf [] then some 0 else none
  | b :: bs => if needle.isPrefixOf (b :: bs) then some 0 else (find needle bs).map (· + 1)

/-- `std::string::substr`: at most `n` bytes from `pos` on, `none` for `std::out_of_range`. -/
def substr (s : Bytes) (pos n : Nat) : Option Bytes :=
  if pos ≤ s.length then some ((s.drop pos).take n) else none

/-- `std::string::find_first_not_of` with one byte. -/
def findFirstNotOf (c : UInt8) : Bytes → Option Nat
  | [] => none
  | b :: bs => if b = c then (findFirstNotOf c bs).map (· + 1) else some 0

theorem find_cons_of_not {n bs : Bytes} {b : UInt8} (h : ¬ n.isPrefixOf (b :: bs) = true) :
    find n (b :: bs) = (find n bs).map (· + 1) := if_neg h

theorem substr_append (x y : Bytes) (n : Nat) : substr (x ++ y) x.length n = some (y.take n) := by
  unfold substr
  rw [if_pos (by rw [List.length_append]; omega), List.drop_left]

/-! ## Where an occurrence lies -/

theorem find_split {n : Bytes} : ∀ {x : Bytes} {i : Nat}, find n x = some i → ∃ post, x = x.take i ++ (n ++ post)
  | [], i, h => by
    unfold find at h
    split at h
    · rename_i hp
      obtain ⟨post, hpost⟩ := List.isPrefixOf_iff_prefix.1 hp
      cases h; exact ⟨post, hpost.symm⟩
    · cases h
  | b :: bs, i, h => by
    unfold find at h
    split at h
    · rename_i hp
      obtain ⟨post, hpost⟩ := List.isPrefixOf_iff_prefix.1 hp
      cases h; exact ⟨post, hpost.symm⟩
    · obtain ⟨j, hj, rfl⟩ := Option.map_eq_some_iff.1 h
      obtain ⟨post, hpost⟩ := find_split hj
      exact ⟨post, by rw [List.take_succ_cons, List.cons_append, ← hpost]⟩

theorem find_le_length {n : Bytes} : ∀ {x : Bytes} {i : Nat}, find n x = some i → i ≤ x.length
  | [], i, h => by
    unfold find at h
    split at h
    · cases h; simp
    · cases h
  | b :: bs, i, h => by
    unfold find at h
    split at h
    · cases h; simp
    · obtain ⟨j, hj, rfl⟩ := Option.map_eq_some_iff.1 h
      have := find_le_length hj
      simp only [List.length_cons]; omega

theorem find_bound {n x : Bytes} {i : Nat} (h : find n x = some i) : i + n.length ≤ x.length := by
  obtain ⟨post, hx⟩ := find_split h
  have hi : (x.take i).length = i := by rw [List.length_take]; have := find_le_length h; omega
  have hl : x.length = (x.take i).length + (n.length + post.length) := by
    conv_lhs => rw [hx]
    simp only [List.length_append]
  omega

theorem isPrefixOf_append {n x : Bytes} (h : n.isPrefixOf x = true) (y : Bytes) : n.isPrefixOf (x ++ y) = true :=
  List.isPrefixOf_iff_prefix.2 ((List.isPrefixOf_iff_prefix.1 h).trans (List.prefix_append x y))

theorem isPrefixOf_of_append {n x y : Bytes} (hl : n.length ≤ x.length) (h : n.isPrefixOf (x ++ y) = true) :
    n.isPrefixOf x = true :=
  List.isPrefixOf_iff_prefix.2
    (List.prefix_of_prefix_length_le (List.isPrefixOf_iff_prefix.1 h) (List.prefix_append x y) hl)

/-! ## Appending bytes -/

/-- The first occurrence does not move when bytes are appended. -/
theorem find_append {n : Bytes} (y : Bytes) :
    ∀ {x : Bytes} {i : Nat}, find n x = some i → find n (x ++ y) = some i
  | [], i, h => by
    unfold find at h
    split at h
    · rename_i hp
      cases h
      cases y with
      | nil => simp only [List.append_nil]; unfold find; rw [if_pos hp]
      | cons c cs =>
        have : n.isPrefixOf (c :: cs) = true := isPrefixOf_append hp (c :: cs)
        simp only [List.nil_append]; unfold find; rw [if_pos this]
    · cases h
  | b :: bs, i, h => by
    unfold find at h
    rw [List.cons_append]; unfold find
    split at h
    · rename_i hp
      rw [if_pos (show n.isPrefixOf (b :: (bs ++ y)) = true from isPrefixOf_append hp y)]; exact h
    · rename_i hp
      obtain ⟨j, hj, rfl⟩ := Option.map_eq_some_iff.1 h
      have hlen := find_bound hj
      have hnot : ¬ n.isPrefixOf (b :: (bs ++ y)) = true := fun hq =>
        hp (isPrefixOf_of_append (by simp only [List.length_cons]; omega) hq)
      rw [if_neg hnot, find_append y hj]; rfl

/-- An occurrence that ends before the appended bytes was there without them. -/
theorem find_of_append {n y : Bytes} :
    ∀ {x : Bytes} {i : Nat}, find n (x ++ y) = some i → i + n.length ≤ x.length → find n x = some i
  | [], i, h, hle => by
    simp only [List.length_nil, Nat.le_zero, Nat.add_eq_zero_iff] at hle
    obtain ⟨rfl, hn⟩ := hle
    rw [List.length_eq_zero_iff] at hn; subst hn; rfl
  | b :: bs, i, h, hle => by
    rw [List.cons_append] at h
    unfold find at h ⊢
    split at h
    · rename_i hp
      cases h
      rw [if_pos (isPrefixOf_of_append (x := b :: bs) (by omega) hp)]
    · rename_i hp
      obtain ⟨j, hj, rfl⟩ := Option.map_eq_some_iff.1 h
      have hnot : ¬ n.isPrefixOf (b :: bs) = true := fun hq => hp (isPrefixOf_append hq y)
      rw [if_neg hnot, find_of_append hj (by simp only [List.length_cons] at hle; omega)]; rfl

/-- An occurrence that was not there before ends in the appended bytes. -/
theorem find_none_append {n x y : Bytes} {i : Nat} (hx : find n x = none) (h : find n (x ++ y) = some i) :
    x.length < i + n.length := by
  by_contra hle
  push Not at hle
  rw [find_of_append h hle] at hx; cases hx

/-- Two ways to cut one string: the shorter front is a front of the longer one. -/
theorem cut_shorter {a b c d : Bytes} (h : a ++ b = c ++ d) (hl : c.length ≤ a.length) :
    ∃ e, a = c ++ e ∧ e ++ b = d := by
  rcases List.append_eq_append_iff.1 h with ⟨e, rfl, rfl⟩ | ⟨e, rfl, rfl⟩
  · have he : e = [] := by
      rw [List.length_append] at hl
      exact List.length_eq_zero_iff.1 (by omega)
    subst he
    exact ⟨[], by simp, by simp⟩
  · exact ⟨e, rfl, rfl⟩

/-! ## Needles -/

theorem find_nil {n : Bytes} (hne : n ≠ []) : find n [] = none := by
  cases n with
  | nil => exact absurd rfl hne
  | cons b bs => rfl

theorem find_self {n : Bytes} (hne : n ≠ []) : find n n = some 0 := by
  cases n with
  | nil => exact absurd rfl hne
  | cons b bs =>
    unfold find
    rw [if_pos (List.isPrefixOf_iff_prefix.2 (List.prefix_refl _))]

/-- A needle is not found among bytes that it does not have. -/
theorem find_disjoint {n : Bytes} (hne : n ≠ []) : ∀ {x : Bytes}, (∀ b ∈ n, b ∉ x) → find n x = none
  | [], _ => find_nil hne
  | b :: bs, h => by
    have hnot : ¬ n.isPrefixOf (b :: bs) = true := by
      intro hp
      obtain ⟨c, cs, rfl⟩ := List.exists_cons_of_ne_nil hne
      obtain ⟨post, hpost⟩ := List.isPrefixOf_iff_prefix.1 hp
      rw [List.cons_append, List.cons.injEq] at hpost
      exact h c (List.mem_cons_self ..) (hpost.1 ▸ List.mem_cons_self ..)
    rw [find_cons_of_not hnot, find_disjoint hne fun c hc hmem => h c hc (List.mem_cons_of_mem _ hmem)]
    rfl

theorem isPrefixOf_around {n x y : Bytes} {c : UInt8} (hc : c ∉ n) (h : n.isPrefixOf (x ++ c :: y) = true) :
    n.isPrefixOf x = true := by
  obtain ⟨post, hpost⟩ := List.isPrefixOf_iff_prefix.1 h
  rw [List.isPrefixOf_iff_prefix]
  rcases List.append_eq_append_iff.1 hpost with ⟨e, hx, -⟩ | ⟨e, hn, he⟩
  · exact ⟨e, hx.symm⟩
  · cases e with
    | nil => exact ⟨[], by rw [hn, List.append_nil, List.append_nil]⟩
    | cons d e =>
      obtain ⟨rfl, -⟩ := List.cons.inj he
      exact absurd (by rw [hn]; simp) hc

/-- A needle without a byte is found before that byte or after it. -/
theorem find_around {n y : Bytes} {c : UInt8} (hne : n ≠ []) (hc : c ∉ n) : ∀ {x : Bytes},
    find n (x ++ c :: y) = (find n x).or ((find n y).map (· + (x.length + 1)))
  | [] => by
    have hnot : ¬ n.isPrefixOf (c :: y) = true := by
      intro hp
      have hnil := isPrefixOf_around (x := []) hc hp
      exact hne (List.prefix_nil.1 (List.isPrefixOf_iff_prefix.1 hnil))
    rw [List.nil_append, find_cons_of_not hnot, find_nil hne]
    rfl
  | b :: bs => by
    rw [List.cons_append]
    by_cases hp : n.isPrefixOf (b :: bs) = true
    · have hp' : n.isPrefixOf (b :: (bs ++ c :: y)) = true := isPrefixOf_append hp (c :: y)
      unfold find
      rw [if_pos hp', if_pos hp]
      rfl
    · have hp' : ¬ n.isPrefixOf (b :: (bs ++ c :: y)) = true := fun h => hp (isPrefixOf_around (x := b :: bs) hc h)
      rw [find_cons_of_not hp', find_cons_of_not hp, find_around hne hc]
      cases find n bs with
      | some i => rfl
      | none => cases find n y <;> rfl

/-! ## One byte -/

theorem find_byte_none {c : UInt8} : ∀ {x : Bytes}, c ∉ x → find [c] x = none
  | [], _ => rfl
  | b :: bs, h => by
    rw [List.mem_cons, not_or] at h
    unfold find
    rw [if_neg (by simpa [List.isPrefixOf] using h.1), find_byte_none h.2]
    rfl

theorem find_byte {c : UInt8} : ∀ {x : Bytes}, c ∉ x → ∀ rest : Bytes, find [c] (x ++ c :: rest) = some x.length
  | [], _, rest => by simp [find]
  | b :: bs, h, rest => by
    rw [List.mem_cons, not_or] at h
    rw [List.cons_append]
    unfold find
    rw [if_neg (by simpa [List.isPrefixOf] using h.1), find_byte h.2]
    rfl

/-- The first occurrence of a byte has no other before it. -/
theorem not_mem_take {c : UInt8} : ∀ {x : Bytes} {i : Nat}, find [c] x = some i → c ∉ x.take i
  | [], i, _ => by simp
  | b :: bs, i, h => by
    by_cases hp : [c].isPrefixOf (b :: bs) = true
    · unfold find at h
      rw [if_pos hp] at h
      cases h
      simp
    · rw [find_cons_of_not hp] at h
      obtain ⟨j, hj, rfl⟩ := Option.map_eq_some_iff.1 h
      rw [List.take_succ_cons, List.mem_cons, not_or]
      exact ⟨by simpa [List.isPrefixOf] using hp, not_mem_take hj⟩

/-! ## Lines -/

theorem find_crlf_cons (b : UInt8) (x : Bytes) (h : find crlf (b :: x) = none) : find crlf x = none := by
  unfold find at h
  split at h
  · cases h
  · exact Option.map_eq_none_iff.1 h

/-- The front of a line is free of CRLF. -/
theorem find_crlf_left {x y : Bytes} (h : find crlf (x ++ y) = none) : find crlf x = none := by
  cases hx : find crlf x with
  | none => rfl
  | some i =>
    rw [find_append y hx] at h
    cases h

/-- The back of a line is free of CRLF. -/
theorem find_crlf_right {y : Bytes} : ∀ {a : Bytes}, find crlf (a ++ y) = none → find crlf y = none
  | [], h => h
  | b :: a, h => find_crlf_right (find_crlf_cons b (a ++ y) h)

/-- A line free of CRLF ends at the CRLF put after it, even when its last byte is a CR. -/
theorem find_crlf_line : ∀ {l : Bytes}, find crlf l = none → ∀ rest : Bytes,
    find crlf (l ++ crlf ++ rest) = some l.length
  | [], _, rest => rfl
  | b :: bs, h, rest => by
    have ih := find_crlf_line (find_crlf_cons b bs h) rest
    have hnot : ¬ crlf.isPrefixOf (b :: (bs ++ crlf ++ rest)) = true := by
      intro hp
      obtain ⟨post, hpost⟩ := List.isPrefixOf_iff_prefix.1 hp
      simp only [crlf, List.cons_append, List.nil_append, List.cons.injEq] at hpost
      obtain ⟨rfl, hrest⟩ := hpost
      cases bs with
      | nil => simp at hrest
      | cons c cs =>
        simp only [List.cons_append, List.cons.injEq] at hrest
        obtain ⟨rfl, -⟩ := hrest
        simp [find, crlf] at h
    rw [List.cons_append, List.cons_append]
    unfold find
    rw [if_neg hnot, ih]; rfl

/-- The first line of a string that has one. -/
theorem find_crlf_split {x : Bytes} {i : Nat} (h : find crlf x = some i) :
    ∃ line rest, x = line ++ crlf ++ rest ∧ find crlf line = none ∧ line.length = i := by
  obtain ⟨rest, hx⟩ := find_split h
  have hi : (x.take i).length = i := by
    rw [List.length_take]
    have := find_le_length h
    omega
  refine ⟨x.take i, rest, by rw [List.append_assoc]; exact hx, ?_, hi⟩
  cases hnone : find crlf (x.take i) with
  | none => rfl
  | some j =>
    -- an earlier CRLF would be the first one
    have hj := find_bound hnone
    have hfirst := find_append (crlf ++ rest) hnone
    rw [← hx, h] at hfirst
    cases hfirst
    rw [hi, length_crlf] at hj
    omega

theorem not_isPrefixOf_crlf {b : UInt8} (h : b ≠ 13) (x : Bytes) : crlf.isPrefixOf (b :: x) ≠ true := by
  intro hp
  simp only [crlf, List.isPrefixOf, Bool.and_eq_true, beq_iff_eq] at hp
  exact h hp.1.symm

theorem find_crlf_none : ∀ {x : Bytes}, 13 ∉ x → find crlf x = none
  | [], _ => rfl
  | b :: bs, h => by
    rw [List.mem_cons, not_or] at h
    unfold find
    rw [if_neg (not_isPrefixOf_crlf (Ne.symm h.1) bs), find_crlf_none h.2]
    rfl

/-- Two strings free of CRLF stay so with a byte between them that is neither CR nor LF. -/
theorem find_crlf_join {b : UInt8} {c : Bytes} (h13 : b ≠ 13) (h10 : b ≠ 10) (hc : find crlf c = none) :
    ∀ {a : Bytes}, find crlf a = none → find crlf (a ++ b :: c) = none
  | [], _ => by
    rw [List.nil_append]
    unfold find
    rw [if_neg (not_isPrefixOf_crlf h13 c), hc]
    rfl
  | x :: xs, h => by
    have ih := find_crlf_join h13 h10 hc (find_crlf_cons x xs h)
    have hnot : ¬ crlf.isPrefixOf (x :: (xs ++ b :: c)) = true := by
      intro hp
      cases xs with
      | nil =>
        simp only [crlf, List.nil_append, List.isPrefixOf, Bool.and_eq_true, beq_iff_eq] at hp
        exact h10 hp.2.1.symm
      | cons y ys =>
        unfold find at h
        rw [if_pos (isPrefixOf_of_append (y := b :: c) (by simp) hp)] at h
        cases h
    rw [List.cons_append]
    unfold find
    rw [if_neg hnot, ih]
    rfl

/-- A line free of CRLF stays so with a CR after it. -/
theorem find_crlf_cr : ∀ {x : Bytes}, find crlf x = none → find crlf (x ++ [13]) = none
  | [], _ => rfl
  | b :: bs, h => by
    have hnot : ¬ crlf.isPrefixOf (b :: (bs ++ [13])) = true := by
      intro hp
      cases bs with
      | nil => simp [crlf] at hp
      | cons c cs =>
        unfold find at h
        rw [if_pos (isPrefixOf_of_append (y := [13]) (by simp) hp)] at h
        cases h
    rw [List.cons_append]
    unfold find
    rw [if_neg hnot, find_crlf_cr (find_crlf_cons b bs h)]
    rfl

/-- A line that is not empty does not begin with a line end. -/
theorem not_prefix_line {l : Bytes} (hne : l ≠ []) (h : find crlf l = none) (rest : Bytes) :
    crlf.isPrefixOf (l ++ crlf ++ rest) ≠ true := by
  intro hp
  have hline := find_crlf_line h rest
  generalize l ++ crlf ++ rest = x at hp hline
  have hzero : find crlf x = some 0 := by
    cases x with
    | nil => simp [crlf] at hp
    | cons b bs =>
      unfold find
      rw [if_pos hp]
  rw [hzero] at hline
  exact hne (List.length_eq_zero_iff.1 (Option.some.inj hline).symm)

theorem prefix_left {a b x : Bytes} (h : (a ++ b).isPrefixOf x = true) : a.isPrefixOf x = true :=
  List.isPrefixOf_iff_prefix.2 ((List.prefix_append a b).trans (List.isPrefixOf_iff_prefix.1 h))

/-- An empty line begins after the line before it. -/
theorem find_empty_line : ∀ {l : Bytes}, find crlf l = none → ∀ rest : Bytes,
    find (crlf ++ crlf) (l ++ crlf ++ (crlf ++ rest)) = some l.length
  | [], _, rest => rfl
  | b :: bs, h, rest => by
    have hnot := not_prefix_line (List.cons_ne_nil b bs) h (crlf ++ rest)
    have ih := find_empty_line (find_crlf_cons b bs h) rest
    rw [List.cons_append, List.cons_append] at hnot ⊢
    rw [find_cons_of_not fun hp => hnot (prefix_left hp), ih]
    rfl

/-- Before a line that is not empty there is no empty line to find. -/
theorem find_full_line {rest : Bytes} (hrest : crlf.isPrefixOf rest ≠ true) : ∀ {l : Bytes}, find crlf l = none →
    find (crlf ++ crlf) (l ++ crlf ++ rest) = (find (crlf ++ crlf) rest).map (· + (l.length + 2))
  | [], _ => by
    have hfirst : ¬ (crlf ++ crlf).isPrefixOf (13 :: 10 :: rest) = true := by
      intro hp
      exact hrest (by simpa [crlf, List.isPrefixOf] using hp)
    have hsecond : ¬ (crlf ++ crlf).isPrefixOf (10 :: rest) = true := by simp [crlf, List.isPrefixOf]
    rw [List.nil_append, show crlf ++ rest = 13 :: 10 :: rest from rfl, find_cons_of_not hfirst, find_cons_of_not hsecond,
      Option.map_map]
    rfl
  | b :: bs, h => by
    have hnot := not_prefix_line (List.cons_ne_nil b bs) h rest
    have ih := find_full_line hrest (find_crlf_cons b bs h)
    rw [List.cons_append, List.cons_append] at hnot ⊢
    rw [find_cons_of_not fun hp => hnot (prefix_left hp), ih, Option.map_map]
    exact congrArg (Option.map · _) (funext fun i => by simp only [Function.comp, List.length_cons]; omega)

/-! ## Skipping one byte -/

theorem findFirstNotOf_head {c b : UInt8} (h : b ≠ c) (bs : Bytes) : findFirstNotOf c (b :: bs) = some 0 := by
  unfold findFirstNotOf; rw [if_neg h]

theorem findFirstNotOf_none {c : UInt8} : ∀ {x : Bytes}, findFirstNotOf c x = none ↔ ∀ b ∈ x, b = c
  | [] => by simp [findFirstNotOf]
  | b :: bs => by
    rw [List.forall_mem_cons]
    by_cases hb : b = c
    · unfold findFirstNotOf
      rw [if_pos hb, Option.map_eq_none_iff, findFirstNotOf_none]
      exact (and_iff_right hb).symm
    · rw [findFirstNotOf_head hb]
      exact iff_of_false (Option.some_ne_none 0) fun h => hb h.1

theorem findFirstNotOf_some {c : UInt8} : ∀ {x : Bytes} {i : Nat}, findFirstNotOf c x = some i →
    ∃ b bs, b ≠ c ∧ x.drop i = b :: bs
  | [], i, h => by cases h
  | b :: bs, i, h => by
    by_cases hb : b = c
    · unfold findFirstNotOf at h
      rw [if_pos hb] at h
      obtain ⟨j, hj, rfl⟩ := Option.map_eq_some_iff.1 h
      rw [List.drop_succ_cons]
      exact findFirstNotOf_some (x := bs) hj
    · rw [findFirstNotOf_head hb] at h
      cases h
      exact ⟨b, bs, hb, rfl⟩

/-! ## Overwriting a byte -/

theorem getD_set (c : Bytes) (i j : Nat) (b : UInt8) : (c.set i b).getD j 0 = if i = j ∧ j < c.length then b else c.getD j 0 := by
  rw [List.getD_eq_getElem?_getD, List.getD_eq_getElem?_getD, List.getElem?_set]
  by_cases hij : i = j
  · by_cases hj : j < c.length
    · simp [hij, hj]
    · simp [hij, hj]
  · simp [hij]

end Bytes

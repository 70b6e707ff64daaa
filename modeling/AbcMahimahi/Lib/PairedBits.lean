/-
A number written into a string of bytes, a bit to a pair of bytes: the bit is one where the two are equal. A
zero is written by moving the two apart, and a one by moving them towards each other until they meet, modulo
256. They meet only if their difference is even, and bytes that are moved apart meet if it was 254.
-/
import AbcMahimahi.Lib.Bytes

namespace PairedBits

open Bytes

/-- Two places in a string. -/
structure Pair where
  left : Nat
  right : Nat
  deriving DecidableEq, Repr

namespace Pair

variable (p : Pair)

def Equal (c : Bytes) : Prop := c.getD p.left 0 = c.getD p.right 0

instance (c : Bytes) : Decidable (p.Equal c) := inferInstanceAs (Decidable (_ = _))

/-- How far the left byte is ahead of the right one. -/
def difference (c : Bytes) : Nat := (c.getD p.left 0 - c.getD p.right 0).toNat

/-- Add to the left byte and take off the right one. -/
def move (d : UInt8) (c : Bytes) : Bytes :=
  let c := c.set p.left (c.getD p.left 0 + d)
  c.set p.right (c.getD p.right 0 - d)

/-- Move the bytes towards each other until they are equal; none if they do not meet within so many turns. -/
def equalise : Nat → Bytes → Option Bytes
  | 0, c => if p.Equal c then some c else none
  | turns + 1, c => if p.Equal c then some c else equalise turns (p.move (-1) c)

/-- The two places are different ones in the string. -/
structure Within (c : Bytes) : Prop where
  left : p.left < c.length
  right : p.right < c.length
  ne : p.left ≠ p.right

/-- The pairs have no place in common. -/
structure Clear (q : Pair) : Prop where
  left_left : p.left ≠ q.left
  left_right : p.left ≠ q.right
  right_left : p.right ≠ q.left
  right_right : p.right ≠ q.right

end Pair

/-- Nothing but the bytes of these pairs is different. -/
structure Outside (ps : List Pair) (c c' : Bytes) : Prop where
  length : c'.length = c.length
  same : ∀ i, (∀ p ∈ ps, i ≠ p.left ∧ i ≠ p.right) → c'.getD i 0 = c.getD i 0

/-- Write the lowest bit of a number into a pair. -/
def writeBit (p : Pair) (n : Nat) (c : Bytes) : Option Bytes :=
  if n % 2 = 1 then p.equalise 256 c else some (p.move 1 c)

/-- Write the lowest bits of a number, the first pair taking the lowest. -/
def writeBits : List Pair → Nat → Bytes → Option Bytes
  | [], _, c => some c
  | p :: ps, n, c => (writeBit p n c).bind (writeBits ps (n / 2))

/-- The number that is read, the first pair counting for `2 ^ i`. -/
def readBits : Nat → List Pair → Bytes → Nat
  | _, [], _ => 0
  | i, p :: ps, c => (if p.Equal c then 2 ^ i else 0) + readBits (i + 1) ps c

/-- Every pair can be brought to its bit of the number. -/
def Writable (ps : List Pair) (n : Nat) (c : Bytes) : Prop :=
  ∀ i p, ps[i]? = some p → if n / 2 ^ i % 2 = 1 then p.difference c % 2 = 0 else p.difference c ≠ 254

/-- The pair with that number in a string of that length: two of every three bytes, counted from the end. -/
def pairAt (length j : Nat) : Pair := ⟨length - (j * 3 + 1), length - (j * 3 + 3)⟩

/-! ## One pair -/

section

variable {p q : Pair} {ps qs : List Pair} {c c' c'' : Bytes}

theorem Outside.refl (ps : List Pair) (c : Bytes) : Outside ps c c := ⟨rfl, fun _ _ => rfl⟩

theorem Outside.trans (h : Outside ps c c') (h' : Outside ps c' c'') : Outside ps c c'' :=
  ⟨h'.length.trans h.length, fun i hi => (h'.same i hi).trans (h.same i hi)⟩

theorem Outside.mono (h : Outside ps c c') (hsub : ∀ p ∈ ps, p ∈ qs) : Outside qs c c' :=
  ⟨h.length, fun i hi => h.same i fun p hp => hi p (hsub p hp)⟩

theorem Pair.Within.of_length (h : p.Within c) (hlen : c'.length = c.length) : p.Within c' :=
  ⟨by rw [hlen]; exact h.left, by rw [hlen]; exact h.right, h.ne⟩

theorem Pair.equal_iff : p.Equal c ↔ p.difference c = 0 := by
  unfold Equal difference
  constructor
  · intro h
    rw [h, UInt8.sub_self]
    rfl
  · intro h
    have hzero : c.getD p.left 0 - c.getD p.right 0 = 0 := UInt8.toNat_inj.1 h
    grind

theorem Pair.outside_move (d : UInt8) (c : Bytes) : Outside [p] c (p.move d c) := by
  unfold move
  refine ⟨by simp, fun i hi => ?_⟩
  obtain ⟨hl, hr⟩ := hi p (List.mem_singleton_self p)
  dsimp only
  rw [getD_set, if_neg (by omega), getD_set, if_neg (by omega)]

theorem Pair.difference_move (h : p.Within c) (d : UInt8) :
    p.difference (p.move d c) = (p.difference c + 2 * d.toNat) % 256 := by
  have hne := h.ne
  have hleft : (p.move d c).getD p.left 0 = c.getD p.left 0 + d := by
    unfold move
    dsimp only
    rw [getD_set, if_neg (by omega), getD_set, if_pos ⟨rfl, h.left⟩]
  have hright : (p.move d c).getD p.right 0 = c.getD p.right 0 - d := by
    unfold move
    dsimp only
    rw [getD_set, if_pos ⟨rfl, by rw [List.length_set]; exact h.right⟩, getD_set, if_neg (by omega)]
  unfold difference
  have hl := (c.getD p.left 0).toNat_lt
  have hr := (c.getD p.right 0).toNat_lt
  have hd := d.toNat_lt
  rw [hleft, hright]
  simp only [UInt8.toNat_sub, UInt8.toNat_add]
  omega

/-- A change to other pairs does not show in this one. -/
theorem Outside.difference (h : Outside ps c c') (hclear : ∀ q ∈ ps, p.Clear q) : p.difference c' = p.difference c := by
  unfold Pair.difference
  rw [h.same p.left fun q hq => ⟨(hclear q hq).left_left, (hclear q hq).left_right⟩,
    h.same p.right fun q hq => ⟨(hclear q hq).right_left, (hclear q hq).right_right⟩]

/-- Bytes with an even difference meet. -/
theorem Pair.equalise_even : ∀ {turns : Nat} {c : Bytes}, p.Within c → p.difference c % 2 = 0 → p.difference c ≤ 2 * turns →
    ∃ c', p.equalise turns c = some c' ∧ p.difference c' = 0 ∧ Outside [p] c c'
  | 0, c, _, _, hturns => ⟨c, if_pos (equal_iff.2 (by omega)), by omega, .refl _ _⟩
  | turns + 1, c, h, heven, hturns => by
    unfold equalise
    by_cases hzero : p.difference c = 0
    · rw [if_pos (equal_iff.2 hzero)]
      exact ⟨c, rfl, hzero, .refl _ _⟩
    · rw [if_neg (fun hequal => hzero (equal_iff.1 hequal))]
      have hmove := difference_move h (-1)
      have hlt : p.difference c < 256 := UInt8.toNat_lt _
      rw [show (-1 : UInt8).toNat = 255 from rfl] at hmove
      have hnext : p.Within (p.move (-1) c) := h.of_length (outside_move (-1) c).length
      obtain ⟨c', hc', hmet, hout⟩ := equalise_even hnext (by omega)
        (show p.difference (p.move (-1) c) ≤ 2 * turns by omega)
      exact ⟨c', hc', hmet, (outside_move (-1) c).trans hout⟩

/-- Bytes with an odd difference never do. -/
theorem Pair.equalise_odd : ∀ (turns : Nat) {c : Bytes}, p.Within c → p.difference c % 2 = 1 → p.equalise turns c = none
  | 0, c, _, hodd => if_neg fun hequal => by
    have := equal_iff.1 hequal
    omega
  | turns + 1, c, h, hodd => by
    have hmove := difference_move h (-1)
    have hlt : p.difference c < 256 := UInt8.toNat_lt _
    rw [show (-1 : UInt8).toNat = 255 from rfl] at hmove
    unfold equalise
    rw [if_neg (fun hequal => by have := equal_iff.1 hequal; omega)]
    exact equalise_odd turns (h.of_length (outside_move (-1) c).length) (by omega)

/-- What writing a bit leaves. -/
theorem writeBit_some {n : Nat} (h : p.Within c) (hw : writeBit p n c = some c') : Outside [p] c c' ∧
    if n % 2 = 1 then p.difference c % 2 = 0 ∧ p.difference c' = 0 else p.difference c' = (p.difference c + 2) % 256 := by
  unfold writeBit at hw
  split at hw
  · rename_i hbit
    rw [if_pos hbit]
    have heven : p.difference c % 2 = 0 := by
      by_contra hodd
      rw [Pair.equalise_odd 256 h (by omega)] at hw
      cases hw
    have hlt : p.difference c < 256 := UInt8.toNat_lt _
    obtain ⟨c₁, hc₁, hmet, hout⟩ := Pair.equalise_even h heven (show p.difference c ≤ 2 * 256 by omega)
    rw [hw] at hc₁
    cases hc₁
    exact ⟨hout, heven, hmet⟩
  · rename_i hbit
    rw [if_neg hbit]
    cases hw
    exact ⟨Pair.outside_move 1 c, Pair.difference_move h 1⟩

theorem writeBit_of_even {n : Nat} (h : p.Within c) (heven : n % 2 = 1 → p.difference c % 2 = 0) :
    ∃ c', writeBit p n c = some c' := by
  unfold writeBit
  split
  · rename_i hbit
    have hlt : p.difference c < 256 := UInt8.toNat_lt _
    obtain ⟨c', hc', -⟩ := Pair.equalise_even h (heven hbit) (show p.difference c ≤ 2 * 256 by omega)
    exact ⟨c', hc'⟩
  · exact ⟨_, rfl⟩

/-! ## All pairs -/

/-- The pairs are in the string, and no two of them have a place in common. -/
structure Placed (ps : List Pair) (c : Bytes) : Prop where
  within : ∀ p ∈ ps, p.Within c
  clear : ps.Pairwise Pair.Clear

theorem Placed.of_length (h : Placed ps c) (hlen : c'.length = c.length) : Placed ps c' :=
  ⟨fun p hp => (h.within p hp).of_length hlen, h.clear⟩

theorem Pair.Clear.symm (h : p.Clear q) : q.Clear p :=
  ⟨h.left_left.symm, h.right_left.symm, h.left_right.symm, h.right_right.symm⟩

theorem Placed.tail (h : Placed (p :: ps) c) : Placed ps c :=
  ⟨fun q hq => h.within q (List.mem_cons_of_mem _ hq), (List.pairwise_cons.1 h.clear).2⟩

theorem Placed.head (h : Placed (p :: ps) c) : p.Within c ∧ ∀ q ∈ ps, p.Clear q :=
  ⟨h.within p (List.mem_cons_self ..), (List.pairwise_cons.1 h.clear).1⟩

theorem placed_pairAt {js : List Nat} (hlen : ∀ j ∈ js, j * 3 + 3 ≤ c.length) (hjs : js.Pairwise (· < ·)) :
    Placed (js.map (pairAt c.length)) c := by
  constructor
  · intro p hp
    obtain ⟨j, hj, rfl⟩ := List.mem_map.1 hp
    have hfit := hlen j hj
    unfold pairAt
    exact ⟨by dsimp only; omega, by dsimp only; omega, by dsimp only; omega⟩
  · rw [List.pairwise_map]
    refine hjs.imp_of_mem fun {i j} hi hj hlt => ?_
    have hi := hlen i hi
    have hj := hlen j hj
    unfold pairAt
    exact ⟨by dsimp only; omega, by dsimp only; omega, by dsimp only; omega, by dsimp only; omega⟩

/-- The writing ends where every one finds an even difference. -/
theorem writeBits_of_even : ∀ {ps : List Pair} {n : Nat} {c : Bytes}, Placed ps c →
    (∀ i p, ps[i]? = some p → n / 2 ^ i % 2 = 1 → p.difference c % 2 = 0) → ∃ c', writeBits ps n c = some c'
  | [], _, c, _, _ => ⟨c, rfl⟩
  | p :: ps, n, c, h, heven => by
    have hfirst := heven 0 p rfl
    rw [pow_zero, Nat.div_one] at hfirst
    obtain ⟨c₁, hc₁⟩ := writeBit_of_even h.head.1 hfirst
    obtain ⟨hout, -⟩ := writeBit_some h.head.1 hc₁
    obtain ⟨c', hc'⟩ := writeBits_of_even (n := n / 2) (h.tail.of_length hout.length) fun i q hq hbit => by
      rw [hout.difference fun r hr => by
        rw [List.mem_singleton.1 hr]
        exact (h.head.2 q (List.mem_of_getElem? hq)).symm]
      exact heven (i + 1) q hq (by rwa [pow_succ', ← Nat.div_div_eq_div_mul])
    exact ⟨c', by unfold writeBits; rw [hc₁]; exact hc'⟩

/-- What the writing leaves: every pair met or moved apart, and the rest of the string. -/
theorem writeBits_some : ∀ {ps : List Pair} {n : Nat} {c c' : Bytes}, Placed ps c → writeBits ps n c = some c' →
    Outside ps c c' ∧ ∀ i p, ps[i]? = some p →
      if n / 2 ^ i % 2 = 1 then p.difference c % 2 = 0 ∧ p.difference c' = 0
      else p.difference c' = (p.difference c + 2) % 256
  | [], _, c, c', _, hw => by
    cases hw
    exact ⟨.refl _ _, fun i p hp => by simp at hp⟩
  | p :: ps, n, c, c', h, hw => by
    unfold writeBits at hw
    obtain ⟨c₁, hc₁, hw⟩ := Option.bind_eq_some_iff.1 hw
    obtain ⟨hwithin, hclear⟩ := h.head
    obtain ⟨hout, hfirst⟩ := writeBit_some hwithin hc₁
    obtain ⟨hout', hrest⟩ := writeBits_some (h.tail.of_length hout.length) hw
    refine ⟨(hout.mono (by simp)).trans (hout'.mono fun q hq => List.mem_cons_of_mem _ hq), fun i q hq => ?_⟩
    cases i with
    | zero =>
      cases hq
      rw [pow_zero, Nat.div_one, hout'.difference hclear]
      exact hfirst
    | succ i =>
      have hnext := hrest i q hq
      have hsame : q.difference c₁ = q.difference c := hout.difference fun r hr => by
        rw [List.mem_singleton.1 hr]
        exact (hclear q (List.mem_of_getElem? hq)).symm
      rwa [Nat.div_div_eq_div_mul, ← pow_succ', hsame] at hnext

/-! ## Reading -/

theorem readBits_succ (i : Nat) : ∀ ps : List Pair, readBits (i + 1) ps c = 2 * readBits i ps c
  | [] => rfl
  | p :: ps => by
    unfold readBits
    rw [readBits_succ (i + 1) ps]
    split
    · rw [pow_succ]
      omega
    · omega

/-- The first pair counts for one and the others for twice what they are worth alone. -/
theorem readBits_cons (p : Pair) (ps : List Pair) :
    readBits 0 (p :: ps) c = (if p.Equal c then 1 else 0) + 2 * readBits 0 ps c := by
  rw [← readBits_succ]
  rfl

theorem readBits_lt : ∀ ps : List Pair, readBits 0 ps c < 2 ^ ps.length
  | [] => by simp [readBits]
  | p :: ps => by
    have hrest := readBits_lt ps
    rw [readBits_cons, List.length_cons, pow_succ]
    split <;> omega

/-- A number is read where the pairs are equal that stand for its ones. -/
theorem readBits_eq_iff : ∀ {ps : List Pair} {n : Nat}, n < 2 ^ ps.length →
    (readBits 0 ps c = n ↔ ∀ i p, ps[i]? = some p → (p.Equal c ↔ n / 2 ^ i % 2 = 1))
  | [], n, hn => by
    rw [List.length_nil, pow_zero] at hn
    simp [readBits]
    omega
  | p :: ps, n, hn => by
    rw [List.length_cons, pow_succ] at hn
    have hrest := readBits_eq_iff (show n / 2 < 2 ^ ps.length by omega)
    -- the first pair is the lowest bit, the others are what is left of the number halved
    have hsplit : readBits 0 (p :: ps) c = n ↔ (p.Equal c ↔ n % 2 = 1) ∧ readBits 0 ps c = n / 2 := by
      rw [readBits_cons]
      by_cases hp : p.Equal c
      · rw [if_pos hp]
        simp only [hp, true_iff]
        omega
      · rw [if_neg hp]
        simp only [hp, false_iff]
        omega
    rw [hsplit, hrest]
    constructor
    · rintro ⟨hfirst, hnext⟩ i q hq
      cases i with
      | zero =>
        cases hq
        rwa [pow_zero, Nat.div_one]
      | succ i =>
        have hnext := hnext i q hq
        rwa [Nat.div_div_eq_div_mul, ← pow_succ'] at hnext
    · intro h
      have hfirst := h 0 p rfl
      rw [pow_zero, Nat.div_one] at hfirst
      refine ⟨hfirst, fun i q hq => ?_⟩
      have hnext := h (i + 1) q hq
      rwa [pow_succ', ← Nat.div_div_eq_div_mul] at hnext

/-- What is written is read, exactly when every pair can be brought to its bit. -/
theorem writeBits_iff {n : Nat} (h : Placed ps c) (hn : n < 2 ^ ps.length) :
    (∃ c', writeBits ps n c = some c' ∧ readBits 0 ps c' = n ∧ Outside ps c c') ↔ Writable ps n c := by
  constructor
  · rintro ⟨c', hw, hread, -⟩ i p hp
    obtain ⟨-, hleft⟩ := writeBits_some h hw
    have hleft := hleft i p hp
    have hequal := (readBits_eq_iff hn).1 hread i p hp
    by_cases hbit : n / 2 ^ i % 2 = 1
    · rw [if_pos hbit] at hleft ⊢
      exact hleft.1
    · rw [if_neg hbit] at hleft ⊢
      intro hfar
      rw [hfar] at hleft
      exact hbit (hequal.1 (Pair.equal_iff.2 hleft))
  · intro hwritable
    obtain ⟨c', hw⟩ := writeBits_of_even h fun i p hp hbit => by
      have hpair := hwritable i p hp
      rwa [if_pos hbit] at hpair
    obtain ⟨hout, hleft⟩ := writeBits_some h hw
    refine ⟨c', hw, (readBits_eq_iff hn).2 fun i p hp => ?_, hout⟩
    have hpair := hwritable i p hp
    have hleft := hleft i p hp
    have hlt : p.difference c < 256 := UInt8.toNat_lt _
    rw [Pair.equal_iff]
    by_cases hbit : n / 2 ^ i % 2 = 1
    · rw [if_pos hbit] at hleft
      exact ⟨fun _ => hbit, fun _ => hleft.2⟩
    · rw [if_neg hbit] at hleft hpair
      exact ⟨fun hmet => by omega, fun hone => absurd hone hbit⟩

end

end PairedBits

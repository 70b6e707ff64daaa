/-
Water-filling: a capacity is shared by demands so that each is met up to one level. The level is found in a scan of
the sorted demands, and what it gives is the only max-min fair allocation: nobody can have more without somebody
who has no more getting less.
-/
import Mathlib.Tactic

namespace WaterFilling

section

variable {K : Type} [Field K] [LinearOrder K] [IsStrictOrderedRing K]

/-! ## Levels -/

/-- What the demands get up to a level. -/
def volume (demands : List K) (level : K) : K := (demands.map (min · level)).sum

/-- A level that gives out the capacity, or meets all demands. -/
def Fills (demands : List K) (capacity level : K) : Prop := volume demands level = min capacity demands.sum

/-- The scan, from a volume that is filled and the level it is filled to. -/
def scan (capacity : K) : K → K → List K → K
  | _, level, [] => level
  | filled, _, d :: ds =>
    if filled + d * (ds.length + 1 : Nat) > capacity then (capacity - filled) / (ds.length + 1 : Nat)
    else scan capacity (filled + d) d ds

variable {demands : List K} {capacity filled level level' d : K}

omit [IsStrictOrderedRing K] in
@[simp] theorem volume_nil : volume [] level = 0 := rfl

omit [IsStrictOrderedRing K] in
@[simp] theorem volume_cons : volume (d :: demands) level = min d level + volume demands level := by
  simp [volume]

omit [IsStrictOrderedRing K] in
theorem volume_perm {demands' : List K} (h : demands.Perm demands') : volume demands level = volume demands' level :=
  (h.map _).sum_eq

/-- Demands that are all at the level or above share alike. -/
theorem volume_of_le (h : ∀ d ∈ demands, level ≤ d) : volume demands level = demands.length * level := by
  induction demands with
  | nil => simp
  | cons d ds ih =>
    rw [volume_cons, min_eq_right (h d (List.mem_cons_self ..)), ih fun d hd => h d (List.mem_cons_of_mem _ hd),
      List.length_cons]
    push_cast
    ring

theorem length_mul_le_sum (h : ∀ d ∈ demands, level ≤ d) : demands.length * level ≤ demands.sum := by
  have := List.card_nsmul_le_sum demands level h
  rwa [nsmul_eq_mul] at this

theorem volume_mono (h : level ≤ level') : volume demands level ≤ volume demands level' :=
  List.sum_le_sum fun _ _ => min_le_min_left _ h

/-- A level above another gives more to a demand that is above it. -/
theorem volume_lt (h : level < level') (hmem : d ∈ demands) (hd : level < d) :
    volume demands level < volume demands level' := by
  obtain ⟨ds, ds', rfl⟩ := List.append_of_mem hmem
  have hrest : volume (ds ++ ds') level ≤ volume (ds ++ ds') level' := volume_mono h.le
  rw [volume_perm List.perm_middle, volume_perm List.perm_middle, volume_cons, volume_cons, min_eq_right hd.le]
  have hmin : level < min d level' := lt_min hd h
  linarith

/-- The scan of demands in order finds a level at or above the one it starts from, and not above them all. -/
theorem scan_spec (hsorted : demands.Pairwise (· ≤ ·)) (habove : ∀ d ∈ demands, level ≤ d)
    (hroom : filled + demands.length * level ≤ capacity) :
    level ≤ scan capacity filled level demands ∧
    filled + volume demands (scan capacity filled level demands) = min capacity (filled + demands.sum) ∧
    (demands = [] ∨ ∃ d ∈ demands, scan capacity filled level demands ≤ d) := by
  induction demands generalizing filled level with
  | nil =>
    simp only [List.length_nil, Nat.cast_zero, zero_mul, add_zero] at hroom
    refine ⟨le_rfl, ?_, Or.inl rfl⟩
    rw [volume_nil, List.sum_nil, add_zero, min_eq_right hroom]
  | cons d ds ih =>
    obtain ⟨hd, hds⟩ := List.pairwise_cons.1 hsorted
    have hlevel := habove d (List.mem_cons_self ..)
    have hlen : (0 : K) < (ds.length + 1 : Nat) := Nat.cast_pos.2 (Nat.succ_pos _)
    rw [List.length_cons] at hroom
    unfold scan
    split
    · -- the capacity runs out below this demand
      rename_i hover
      have hlt : (capacity - filled) / (ds.length + 1 : Nat) < d := by
        rw [div_lt_iff₀ hlen]
        linarith
      have hall : ∀ e ∈ d :: ds, (capacity - filled) / (ds.length + 1 : Nat) ≤ e := by
        intro e he
        rcases List.mem_cons.1 he with rfl | he
        · exact hlt.le
        · exact hlt.le.trans (hd e he)
      have hsum : (ds.length + 1 : Nat) * d ≤ (d :: ds).sum := by
        rw [← List.length_cons (a := d)]
        refine length_mul_le_sum fun e he => ?_
        rcases List.mem_cons.1 he with rfl | he
        · exact le_rfl
        · exact hd e he
      refine ⟨?_, ?_, Or.inr ⟨d, List.mem_cons_self .., hlt.le⟩⟩
      · rw [le_div_iff₀ hlen]
        linarith
      · rw [volume_of_le hall, List.length_cons, mul_div_cancel₀ _ hlen.ne', min_eq_left (by linarith)]
        ring
    · rename_i hunder
      have hroom' : filled + d + ds.length * d ≤ capacity := by
        have := not_lt.1 hunder
        push_cast at this
        linarith
      obtain ⟨hle, hvolume, hmax⟩ := ih hds hd hroom'
      refine ⟨hlevel.trans hle, ?_, Or.inr ?_⟩
      · rw [volume_cons, min_eq_left hle, List.sum_cons, ← add_assoc, ← add_assoc]
        exact hvolume
      · rcases hmax with rfl | ⟨e, he, hle⟩
        · exact ⟨d, List.mem_cons_self .., le_rfl⟩
        · exact ⟨e, List.mem_cons_of_mem _ he, hle⟩

/-- The level of demands that there is not more capacity than: one of them is below it exactly when filling to that
demand would not be too much. -/
theorem Fills.le_iff (h : Fills demands capacity level) (hover : capacity ≤ demands.sum) (hmem : d ∈ demands) :
    d ≤ level ↔ volume demands d ≤ capacity := by
  have hlevel : volume demands level = capacity := by
    rw [h, min_eq_left hover]
  constructor
  · intro hle
    exact (volume_mono hle).trans hlevel.le
  · intro hle
    by_contra hlt
    have := volume_lt (not_le.1 hlt) hmem (not_le.1 hlt)
    linarith

end

/-! ## Fair allocations -/

section

variable {K : Type} [Field K] [LinearOrder K] [IsStrictOrderedRing K] {ι : Type} [Fintype ι]

/-- Nobody gets more than the demand, and all together not more than the capacity. -/
structure Feasible (demand : ι → K) (capacity : K) (a : ι → K) : Prop where
  nonneg : ∀ i, 0 ≤ a i
  le : ∀ i, a i ≤ demand i
  total : ∑ i, a i ≤ capacity

/-- What one gets more in another allocation is taken from somebody who has no more. -/
structure MaxMinFair (demand : ι → K) (capacity : K) (a : ι → K) : Prop extends Feasible demand capacity a where
  fair : ∀ b, Feasible demand capacity b → ∀ i, a i < b i → ∃ j, b j < a j ∧ a j ≤ a i

variable {demand : ι → K} {capacity level : K} {a b : ι → K}

/-- Filled to a level, and to the last of the capacity unless all demands are met, an allocation is fair. -/
theorem maxMinFair_level (hdemand : ∀ i, 0 ≤ demand i) (hlevel : 0 ≤ level)
    (hfills : ∑ i, min (demand i) level = min capacity (∑ i, demand i)) :
    MaxMinFair demand capacity fun i => min (demand i) level := by
  refine ⟨⟨fun i => le_min (hdemand i) hlevel, fun i => min_le_left _ _, hfills.le.trans (min_le_left _ _)⟩, ?_⟩
  intro b hb i hi
  have hshort : level < demand i := by
    by_contra hle
    rw [min_eq_left (not_lt.1 hle)] at hi
    exact absurd (hb.le i) (not_le.2 hi)
  -- the capacity is used up, so somebody gets less
  have hover : ∑ j, b j ≤ ∑ j, min (demand j) level := by
    rcases min_cases capacity (∑ j, demand j) with ⟨hmin, -⟩ | ⟨hmin, -⟩
    · rw [hfills, hmin]
      exact hb.total
    · rw [hfills, hmin]
      exact Finset.sum_le_sum fun j _ => hb.le j
  obtain ⟨j, hj⟩ : ∃ j, b j < min (demand j) level := by
    by_contra hnone
    rw [not_exists] at hnone
    have hlt : ∑ j, min (demand j) level < ∑ j, b j :=
      Finset.sum_lt_sum (fun j _ => not_lt.1 (hnone j)) ⟨i, Finset.mem_univ i, hi⟩
    exact absurd hover (not_le.2 hlt)
  refine ⟨j, hj, ?_⟩
  rw [min_eq_right hshort.le]
  exact min_le_right _ _

omit [IsStrictOrderedRing K] in
/-- There is one fair allocation. -/
theorem MaxMinFair.unique (ha : MaxMinFair demand capacity a) (hb : MaxMinFair demand capacity b) : a = b := by
  classical
  by_contra hne
  -- where they differ, take the least that either gives
  have hdiffer : (Finset.univ.filter fun i => a i ≠ b i).Nonempty := by
    obtain ⟨i, hi⟩ := Function.ne_iff.1 hne
    exact ⟨i, Finset.mem_filter.2 ⟨Finset.mem_univ i, hi⟩⟩
  obtain ⟨i, hi, hleast⟩ := Finset.exists_min_image _ (fun i => min (a i) (b i)) hdiffer
  have hleast' : ∀ j, a j ≠ b j → min (a i) (b i) ≤ min (a j) (b j) :=
    fun j hj => hleast j (Finset.mem_filter.2 ⟨Finset.mem_univ j, hj⟩)
  have hi := (Finset.mem_filter.1 hi).2
  rcases lt_or_gt_of_ne hi with hlt | hlt
  · obtain ⟨j, hj, hle⟩ := ha.fair b hb.toFeasible i hlt
    have := hleast' j hj.ne'
    rw [min_eq_left hlt.le, min_eq_right hj.le] at this
    exact absurd (hj.trans_le hle) (not_lt.2 this)
  · obtain ⟨j, hj, hle⟩ := hb.fair a ha.toFeasible i hlt
    have := hleast' j hj.ne
    rw [min_eq_right hlt.le, min_eq_left hj.le] at this
    exact absurd (hj.trans_le hle) (not_lt.2 this)

end

end WaterFilling

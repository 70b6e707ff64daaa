/-
The shares of the two queues of `WEIGHTEDPacketQueue`. The level `alpha_water` fills the rates of all ports to the
demands. A share takes the demand of a port from 5197 on up to the level, but that of a lower port as a whole, so the
two are the max-min fair shares when no lower port is above the level.
-/
import AbcMahimahi.Lib.WaterFilling
import AbcMahimahi.Packet.Weighted

namespace AbcMahimahi.Packet.WEIGHTEDPacketQueue

open WaterFilling

/-! ## The level -/

/-- `alpha_water`, of a list of demands: they are sorted into `v3`, with their partial sums in `v4`. -/
def waterLevel (demands : List ℚ) (actualDequeOverall : ℚ) : ℚ :=
  waterLoop demands.mergeSort (demands.mergeSort.scanl (· + ·) 0) actualDequeOverall
    (List.range demands.mergeSort.length) 0

theorem alphaWater_eq (category1 category2 : List (Nat × ℚ)) :
    alphaWater category1 category2 =
      waterLevel ((category1 ++ category2).map fun c => demand c.1 c.2) ((category1 ++ category2).map (·.2)).sum := rfl

theorem getD_scanl {v : List ℚ} {i : Nat} (hi : i ≤ v.length) : (v.scanl (· + ·) 0).getD i 0 = (v.take i).sum := by
  rw [List.getD_eq_getElem?_getD, List.getElem?_eq_getElem (by rw [List.length_scanl]; omega), Option.getD_some,
    List.getElem_scanl, List.sum_eq_foldl]

/-- The loop over the indices that are left is the scan of the demands that are left. -/
theorem waterLoop_eq (v : List ℚ) (capacity : ℚ) : ∀ (n i : Nat) (level : ℚ), i + n = v.length →
    waterLoop v (v.scanl (· + ·) 0) capacity (List.range' i n) level =
      scan capacity (v.take i).sum level (v.drop i)
  | 0, i, level, hi => by
    rw [List.drop_of_length_le (by omega)]
    rfl
  | n + 1, i, level, hi => by
    have hlt : i < v.length := by omega
    have hrest : (v.drop (i + 1)).length + 1 = v.length - i := by
      rw [List.length_drop]
      omega
    rw [List.range'_succ, List.drop_eq_getElem_cons hlt]
    unfold waterLoop scan
    have hget : v.getD i 0 = v[i] := by
      rw [List.getD_eq_getElem?_getD, List.getElem?_eq_getElem hlt, Option.getD_some]
    rw [getD_scanl hlt.le, hget, hrest, waterLoop_eq v capacity n (i + 1) _ (by omega),
      List.sum_take_succ _ _ hlt]

/-- However the demands were in order, the level is found in a scan of them in ascending order. -/
theorem waterLevel_eq_scan {demands v : List ℚ} (hperm : v.Perm demands) (hsorted : v.Pairwise (· ≤ ·)) (capacity : ℚ) :
    waterLevel demands capacity = scan capacity 0 0 v := by
  have hv : demands.mergeSort = v :=
    ((List.mergeSort_perm demands _).trans hperm.symm).eq_of_pairwise' List.sortedLE_mergeSort.pairwise hsorted
  unfold waterLevel
  rw [hv, List.range_eq_range', waterLoop_eq _ _ _ 0 _ (Nat.zero_add _)]
  rfl

/-- The level fills the demands, and is not above all of them. -/
theorem waterLevel_fills {demands : List ℚ} {capacity : ℚ} (hdemands : ∀ d ∈ demands, 0 ≤ d) (hcapacity : 0 ≤ capacity) :
    0 ≤ waterLevel demands capacity ∧ Fills demands capacity (waterLevel demands capacity) ∧
    (demands = [] ∨ ∃ d ∈ demands, waterLevel demands capacity ≤ d) := by
  have hperm := List.mergeSort_perm demands (fun a b => decide (a ≤ b))
  have hsorted : demands.mergeSort.Pairwise (· ≤ ·) := List.sortedLE_mergeSort.pairwise
  have hroom : 0 + (demands.mergeSort.length : ℚ) * 0 ≤ capacity := by
    rw [mul_zero, add_zero]
    exact hcapacity
  obtain ⟨hnonneg, hvolume, hmax⟩ := scan_spec hsorted (fun d hd => hdemands d (hperm.mem_iff.1 hd)) hroom
  rw [← waterLevel_eq_scan hperm hsorted] at hnonneg hvolume hmax
  refine ⟨hnonneg, ?_, ?_⟩
  · unfold Fills
    rw [← volume_perm hperm, ← hperm.sum_eq]
    simpa using hvolume
  · rcases hmax with hnil | ⟨d, hd, hle⟩
    · rw [hnil] at hperm
      exact Or.inl hperm.symm.eq_nil
    · exact Or.inr ⟨d, hperm.mem_iff.1 hd, hle⟩

/-- Up to the level, non-negative demands get the capacity or all they ask for, and the level is not above the
largest of them. -/
theorem water_level {demands : List ℚ} {capacity : ℚ} (hne : demands ≠ []) (hdemands : ∀ d ∈ demands, 0 ≤ d)
    (hcapacity : 0 ≤ capacity) :
    (demands.map fun d => min d (waterLevel demands capacity)).sum = min capacity demands.sum ∧
      ∀ largest ∈ demands, (∀ d ∈ demands, d ≤ largest) → waterLevel demands capacity ≤ largest := by
  obtain ⟨-, hfills, hmax⟩ := waterLevel_fills hdemands hcapacity
  refine ⟨hfills, fun largest _ hlargest => ?_⟩
  obtain ⟨d, hd, hle⟩ := hmax.resolve_left hne
  exact hle.trans (hlargest d hd)

/-- Two demands of 3 and 1 share 3 at the level 2. -/
theorem water_level_small : waterLevel [3, 1] 3 = 2 ∧ ([3, 1].map fun d => min d (waterLevel [3, 1] 3)).sum = 3 := by
  refine ⟨?_, ?_⟩
  · rw [waterLevel_eq_scan (v := [1, 3]) (List.Perm.swap ..) (by simp) 3]
    norm_num [scan]
  · rw [(water_level (show [(3 : ℚ), 1] ≠ [] by simp) (by simp) (show (0 : ℚ) ≤ 3 by norm_num)).1]
    norm_num

/-! ## The shares -/

/-- The ports of both categories. -/
abbrev Flow (category1 category2 : List (Nat × ℚ)) : Type := Fin category1.length ⊕ Fin category2.length

/-- What each asks for. -/
def flowDemand (category1 category2 : List (Nat × ℚ)) : Flow category1 category2 → ℚ :=
  Sum.elim (fun i => demand category1[i].1 category1[i].2) fun i => demand category2[i].1 category2[i].2

/-- `actual_deque_overall`. -/
def actualDequeOverall (category1 category2 : List (Nat × ℚ)) : ℚ := ((category1 ++ category2).map (·.2)).sum

/-- `rand1` and `rand2` are what the level gives the demands, and the max-min fair shares of the link. -/
structure FairShares (category1 category2 : List (Nat × ℚ)) (rand1 rand2 : ℚ) : Prop where
  level1 : rand1 = (category1.map fun c => min (demand c.1 c.2) (alphaWater category1 category2)).sum
  level2 : rand2 = (category2.map fun c => min (demand c.1 c.2) (alphaWater category1 category2)).sum
  total : rand1 + rand2 = actualDequeOverall category1 category2
  fair : ∃ a, MaxMinFair (flowDemand category1 category2) (actualDequeOverall category1 category2) a ∧
    rand1 / (rand1 + rand2) = (∑ i, a (Sum.inl i)) / actualDequeOverall category1 category2

/-- What a port adds to the share of its category. -/
def taken (level : ℚ) (c : Nat × ℚ) : ℚ := if c.1 < 5197 then c.2 else min (c.2 * 1.1) level

theorem share_eq (level : ℚ) (category : List (Nat × ℚ)) : share level category = (category.map (taken level)).sum := rfl

theorem le_demand {c : Nat × ℚ} (h : 0 ≤ c.2) : c.2 ≤ demand c.1 c.2 := by
  unfold demand
  split <;> linarith

theorem min_le_taken (level : ℚ) (c : Nat × ℚ) : min (demand c.1 c.2) level ≤ taken level c := by
  unfold demand taken
  split
  · exact min_le_left _ _
  · exact le_rfl

/-- A port takes no more than the level gives it unless it is a low one, and above the level. -/
theorem taken_eq_iff {level : ℚ} {c : Nat × ℚ} :
    min (demand c.1 c.2) level = taken level c ↔ (c.1 < 5197 → c.2 ≤ level) := by
  unfold demand taken
  split
  · rename_i hport
    rw [min_eq_left_iff]
    exact ⟨fun h _ => h, fun h => h hport⟩
  · rename_i hport
    exact ⟨fun _ h => absurd h hport, fun _ => rfl⟩

section

variable {category1 category2 : List (Nat × ℚ)}

/-- The level gives out the rates there are. -/
theorem alphaWater_fills (hrates : ∀ c ∈ category1 ++ category2, 0 ≤ c.2) :
    0 ≤ alphaWater category1 category2 ∧
    Fills ((category1 ++ category2).map fun c => demand c.1 c.2) (actualDequeOverall category1 category2)
      (alphaWater category1 category2) ∧
    actualDequeOverall category1 category2 ≤ ((category1 ++ category2).map fun c => demand c.1 c.2).sum := by
  rw [alphaWater_eq]
  have hdemands : ∀ d ∈ (category1 ++ category2).map (fun c => demand c.1 c.2), 0 ≤ d := by
    intro d hd
    obtain ⟨c, hc, rfl⟩ := List.mem_map.1 hd
    exact (hrates c hc).trans (le_demand (hrates c hc))
  have hcapacity : 0 ≤ ((category1 ++ category2).map (·.2)).sum := by
    refine List.sum_nonneg fun r hr => ?_
    obtain ⟨c, hc, rfl⟩ := List.mem_map.1 hr
    exact hrates c hc
  obtain ⟨hnonneg, hfills, -⟩ := waterLevel_fills hdemands hcapacity
  exact ⟨hnonneg, hfills, List.sum_le_sum fun c hc => le_demand (hrates c hc)⟩

/-- The sum over both categories. -/
theorem sum_flows (f : Nat × ℚ → ℚ) (category : List (Nat × ℚ)) :
    ∑ i : Fin category.length, f category[i] = (category.map f).sum :=
  Fin.sum_univ_fun_getElem category f

/-- When no low port is above the level, the shares are fair. -/
theorem fairShares_of_le (hrates : ∀ c ∈ category1 ++ category2, 0 ≤ c.2)
    (hlow : ∀ c ∈ category1 ++ category2, c.1 < 5197 → c.2 ≤ alphaWater category1 category2) :
    FairShares category1 category2 (share (alphaWater category1 category2) category1)
      (share (alphaWater category1 category2) category2) := by
  obtain ⟨hnonneg, hfills, hover⟩ := alphaWater_fills hrates
  have hvolume : volume ((category1 ++ category2).map fun c => demand c.1 c.2) (alphaWater category1 category2) =
      actualDequeOverall category1 category2 := by
    rw [hfills, min_eq_left hover]
  -- no port below 5197 is above the level, so each takes what the level allows
  have hshare : ∀ category, (∀ c ∈ category, c ∈ category1 ++ category2) →
      share (alphaWater category1 category2) category =
        (category.map fun c => min (demand c.1 c.2) (alphaWater category1 category2)).sum := by
    intro category hsub
    rw [share_eq]
    exact congrArg _ (List.map_congr_left fun c hc => (taken_eq_iff.2 (hlow c (hsub c hc))).symm)
  have hlevel1 := hshare category1 fun c hc => List.mem_append_left _ hc
  have hlevel2 := hshare category2 fun c hc => List.mem_append_right _ hc
  have htotal : share (alphaWater category1 category2) category1 + share (alphaWater category1 category2) category2 =
      actualDequeOverall category1 category2 := by
    rw [hlevel1, hlevel2, ← List.sum_append, ← List.map_append, ← hvolume]
    unfold volume
    rw [List.map_map]
    rfl
  refine ⟨hlevel1, hlevel2, htotal, fun i => min (flowDemand category1 category2 i) (alphaWater category1 category2), ?_, ?_⟩
  · refine maxMinFair_level ?_ hnonneg ?_
    · rintro (i | i)
      · exact (hrates _ (List.mem_append_left _ (List.getElem_mem _))).trans
          (le_demand (hrates _ (List.mem_append_left _ (List.getElem_mem _))))
      · exact (hrates _ (List.mem_append_right _ (List.getElem_mem _))).trans
          (le_demand (hrates _ (List.mem_append_right _ (List.getElem_mem _))))
    · rw [Fintype.sum_sum_type, Fintype.sum_sum_type]
      unfold flowDemand
      simp only [Sum.elim_inl, Sum.elim_inr]
      rw [sum_flows (fun c => min (demand c.1 c.2) (alphaWater category1 category2)),
        sum_flows (fun c => min (demand c.1 c.2) (alphaWater category1 category2)), sum_flows (fun c => demand c.1 c.2),
        sum_flows (fun c => demand c.1 c.2), ← hlevel1, ← hlevel2, htotal, ← List.sum_append, ← List.map_append,
        min_eq_left hover]
  · rw [htotal, hlevel1]
    exact congrArg (· / _) (sum_flows (fun c => min (demand c.1 c.2) (alphaWater category1 category2)) category1).symm

/-- Together the shares are the rates there are only if no low port is above the level. -/
theorem le_of_total (hrates : ∀ c ∈ category1 ++ category2, 0 ≤ c.2)
    (htotal : share (alphaWater category1 category2) category1 + share (alphaWater category1 category2) category2 =
      actualDequeOverall category1 category2) :
    ∀ c ∈ category1 ++ category2, c.1 < 5197 → c.2 ≤ alphaWater category1 category2 := by
  obtain ⟨-, hfills, hover⟩ := alphaWater_fills hrates
  rw [share_eq, share_eq, ← List.sum_append, ← List.map_append] at htotal
  intro c hc hport
  by_contra hle
  have hlt : min (demand c.1 c.2) (alphaWater category1 category2) < taken (alphaWater category1 category2) c :=
    lt_of_le_of_ne (min_le_taken _ _) fun heq => hle (taken_eq_iff.1 heq hport)
  have hsum := List.sum_lt_sum (fun c : Nat × ℚ => min (demand c.1 c.2) (alphaWater category1 category2))
    (taken (alphaWater category1 category2)) (fun c _ => min_le_taken _ c) ⟨c, hc, hlt⟩
  have hvolume : ((category1 ++ category2).map fun c => min (demand c.1 c.2) (alphaWater category1 category2)).sum =
      actualDequeOverall category1 category2 := by
    rw [← min_eq_left hover, ← hfills]
    unfold volume
    rw [List.map_map]
    rfl
  rw [hvolume, htotal] at hsum
  exact lt_irrefl _ hsum

/-- The shares are the max-min fair shares of the link exactly when the rates there are are enough to give every port
as much as any of the ports below 5197 asks for, or all it asks for. -/
theorem fair_shares_iff (hrates : ∀ c ∈ category1 ++ category2, 0 ≤ c.2) :
    FairShares category1 category2 (share (alphaWater category1 category2) category1)
      (share (alphaWater category1 category2) category2) ↔
    ∀ low ∈ category1 ++ category2, low.1 < 5197 →
      ((category1 ++ category2).map fun c => min (demand c.1 c.2) low.2).sum ≤ actualDequeOverall category1 category2 := by
  obtain ⟨-, hfills, hover⟩ := alphaWater_fills hrates
  have hle : ∀ low ∈ category1 ++ category2, low.1 < 5197 → (low.2 ≤ alphaWater category1 category2 ↔
      ((category1 ++ category2).map fun c => min (demand c.1 c.2) low.2).sum ≤ actualDequeOverall category1 category2) := by
    intro low hlow hport
    have hmem : low.2 ∈ (category1 ++ category2).map fun c => demand c.1 c.2 :=
      List.mem_map.2 ⟨low, hlow, if_pos hport⟩
    rw [hfills.le_iff hover hmem]
    unfold volume
    rw [List.map_map]
    rfl
  constructor
  · intro h low hlow hport
    exact (hle low hlow hport).1 (le_of_total hrates h.total low hlow hport)
  · intro h
    exact fairShares_of_le hrates fun low hlow hport => (hle low hlow hport).2 (h low hlow hport)

/-- A low port at the rate 1 and a high one at the rate 2: the first is given 1, the other all the rest. -/
theorem fair_shares_small : FairShares [(5000, 1)] [(6000, 2)] (share (alphaWater [(5000, 1)] [(6000, 2)]) [(5000, 1)])
    (share (alphaWater [(5000, 1)] [(6000, 2)]) [(6000, 2)]) := by
  refine (fair_shares_iff (by simp)).2 ?_
  intro low hlow hport
  rw [List.singleton_append, List.mem_cons, List.mem_singleton] at hlow
  rcases hlow with rfl | rfl
  · norm_num [actualDequeOverall, demand]
  · exact absurd hport (by decide)

/-- A low port at the rate 2 and a high one at the rate 1: the shares are 2 and 1.1, of a link of 3. -/
theorem low_port_unclamped : alphaWater [(5000, 2)] [(6000, 1)] = 1.9 ∧
    share (alphaWater [(5000, 2)] [(6000, 1)]) [(5000, 2)] = 2 ∧
    share (alphaWater [(5000, 2)] [(6000, 1)]) [(6000, 1)] = 1.1 ∧
    actualDequeOverall [(5000, 2)] [(6000, 1)] = 3 ∧
    ¬ FairShares [(5000, 2)] [(6000, 1)] (share (alphaWater [(5000, 2)] [(6000, 1)]) [(5000, 2)])
      (share (alphaWater [(5000, 2)] [(6000, 1)]) [(6000, 1)]) := by
  have hlevel : alphaWater [(5000, 2)] [(6000, 1)] = 1.9 := by
    rw [alphaWater_eq, waterLevel_eq_scan (v := [1.1, 2])]
    · norm_num [scan]
    · norm_num [demand]
      exact List.Perm.swap ..
    · norm_num
  have hrand1 : share (alphaWater [(5000, 2)] [(6000, 1)]) [(5000, 2)] = 2 := by norm_num [share]
  have hrand2 : share (alphaWater [(5000, 2)] [(6000, 1)]) [(6000, 1)] = 1.1 := by
    rw [hlevel]
    norm_num [share]
  have hoverall : actualDequeOverall [(5000, 2)] [(6000, 1)] = 3 := by norm_num [actualDequeOverall]
  refine ⟨hlevel, hrand1, hrand2, hoverall, fun h => ?_⟩
  have htotal := h.total
  rw [hrand1, hrand2, hoverall] at htotal
  norm_num at htotal

end

end AbcMahimahi.Packet.WEIGHTEDPacketQueue

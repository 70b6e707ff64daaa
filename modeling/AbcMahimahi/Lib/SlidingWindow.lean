/-
A window of times, pruned lazily from the front. A time goes when it is old and the one behind it is
in the past, so the window never gets empty, and what is pruned now would have been pruned later
anyway: a pruned record of times answers like the whole record. After a time is recorded, the window
is the times that are not old, with the latest old one in front when none of them is in the past.
-/
import Mathlib.Tactic

namespace SlidingWindow

variable {α : Type} [LinearOrder α]

/-- `old now h`: at `now` the time `h` is too old. -/
structure Horizon (old : α → α → Bool) : Prop where
  down : ∀ now a b, a ≤ b → old now b = true → old now a = true
  later : ∀ now now' a, now ≤ now' → old now a = true → old now' a = true
  past : ∀ now a, old now a = true → a < now

/-- Take old times off the front while the one behind is in the past. -/
def prune (old : α → α → Bool) (now : α) : List α → List α
  | t₀ :: t₁ :: rest => if old now t₀ ∧ t₁ < now then prune old now (t₁ :: rest) else t₀ :: t₁ :: rest
  | window => window

/-- The times that are not old, after the latest old one if none of them is in the past. -/
def window (old : α → α → Bool) (now : α) (times : List α) : List α :=
  (if ∃ h ∈ times, old now h = false ∧ h < now then [] else (times.filter (old now)).getLast?.toList) ++
    times.filter (fun h => !old now h)

variable {old : α → α → Bool} {now last : α} {times kept : List α}

/-- Pruning the whole record leaves its window. -/
theorem prune_eq_window (h : Horizon old) : ∀ {times : List α}, times.Pairwise (· ≤ ·) →
    prune old now times = window old now times
  | [], _ => by simp [prune, window]
  | [t], _ => by cases ht : old now t <;> simp [prune, window, ht]
  | t₀ :: t₁ :: rest, hsorted => by
    have htail := (List.pairwise_cons.1 hsorted).2
    have hfirst := (List.pairwise_cons.1 hsorted).1
    unfold prune
    by_cases hgo : old now t₀ = true ∧ t₁ < now
    · -- the first time does not show in the window of the whole record either
      rw [if_pos hgo, prune_eq_window h htail]
      unfold window
      have hrecent : (∃ a ∈ t₀ :: t₁ :: rest, old now a = false ∧ a < now) ↔
          ∃ a ∈ t₁ :: rest, old now a = false ∧ a < now := by
        simp [hgo.1]
      have hfresh : (t₀ :: t₁ :: rest).filter (fun a => !old now a) = (t₁ :: rest).filter (fun a => !old now a) :=
        List.filter_cons_of_neg (by simp [hgo.1])
      rw [hfresh, List.filter_cons_of_pos hgo.1]
      simp only [hrecent]
      congr 1
      by_cases h₁ : old now t₁ = true
      · rw [List.filter_cons_of_pos h₁, List.getLast?_cons_cons]
      · rw [if_pos ⟨t₁, List.mem_cons_self .., by simpa using h₁, hgo.2⟩,
          if_pos ⟨t₁, List.mem_cons_self .., by simpa using h₁, hgo.2⟩]
    · rw [if_neg hgo]
      by_cases h₀ : old now t₀ = true
      · -- nothing after the first time is in the past
        have hnow : ∀ a ∈ t₁ :: rest, now ≤ a := by
          intro a ha
          have h₁ : now ≤ t₁ := not_lt.1 (fun hlt => hgo ⟨h₀, hlt⟩)
          rcases List.mem_cons.1 ha with rfl | ha
          · exact h₁
          · exact h₁.trans ((List.pairwise_cons.1 htail).1 a ha)
        have hfresh : ∀ a ∈ t₁ :: rest, old now a = false := fun a ha =>
          Bool.eq_false_iff.2 (fun hold => absurd (h.past now a hold) (not_lt.2 (hnow a ha)))
        have hrecent : ¬∃ a ∈ t₀ :: t₁ :: rest, old now a = false ∧ a < now := by
          rintro ⟨a, ha, hfalse, hlt⟩
          rcases List.mem_cons.1 ha with rfl | ha
          · rw [h₀] at hfalse; cases hfalse
          · exact absurd hlt (not_lt.2 (hnow a ha))
        have hnone : (t₁ :: rest).filter (old now) = [] :=
          List.filter_eq_nil_iff.2 (fun a ha => by rw [hfresh a ha]; simp)
        have hall : (t₁ :: rest).filter (fun a => !old now a) = t₁ :: rest :=
          List.filter_eq_self.2 (fun a ha => by rw [hfresh a ha]; rfl)
        unfold window
        rw [if_neg hrecent, List.filter_cons_of_pos h₀, hnone, List.filter_cons_of_neg (by simp [h₀]), hall]
        rfl
      · -- nothing is old
        have hfresh : ∀ a ∈ t₀ :: t₁ :: rest, old now a = false := by
          intro a ha
          refine Bool.eq_false_iff.2 (fun hold => h₀ ?_)
          rcases List.mem_cons.1 ha with rfl | ha
          · exact hold
          · exact h.down now t₀ a (hfirst a ha) hold
        have hnone : (t₀ :: t₁ :: rest).filter (old now) = [] :=
          List.filter_eq_nil_iff.2 (fun a ha => by rw [hfresh a ha]; simp)
        have hall : (t₀ :: t₁ :: rest).filter (fun a => !old now a) = t₀ :: t₁ :: rest :=
          List.filter_eq_self.2 (fun a ha => by rw [hfresh a ha]; rfl)
        unfold window
        rw [hnone, hall, List.getLast?_nil, Option.toList_none, ite_self, List.nil_append]

/-- Old times in front of one in the past do not matter. -/
theorem prune_append (h : Horizon old) : ∀ {dropped : List α}, (∀ d ∈ dropped, old now d = true) →
    (dropped ≠ [] → ∀ a ∈ kept.head?, a < now) → kept ≠ [] → prune old now (dropped ++ kept) = prune old now kept
  | [], _, _, _ => rfl
  | d :: dropped, hold, hhead, hne => by
    have hlast := hhead (by simp)
    rw [← prune_append h (fun d hd => hold d (List.mem_cons_of_mem _ hd)) (fun _ => hlast) hne]
    have hd := hold d (List.mem_cons_self ..)
    cases dropped with
    | nil =>
      cases kept with
      | nil => exact absurd rfl hne
      | cons a rest => exact if_pos ⟨hd, hlast a rfl⟩
    | cons d' dropped => exact if_pos ⟨hd, h.past now d' (hold d' (by simp))⟩

/-- What is kept of a record up to the time `last`: all but old times in front of one in the past. -/
structure Kept (old : α → α → Bool) (last : α) (times kept : List α) : Prop where
  sorted : times.Pairwise (· ≤ ·)
  bound : ∀ a ∈ times, a ≤ last
  nonempty : kept ≠ []
  split : ∃ dropped, times = dropped ++ kept ∧ (∀ d ∈ dropped, old last d = true) ∧
    (dropped ≠ [] → ∀ a ∈ kept.head?, a < last)

theorem Kept.wait (h : Horizon old) (hk : Kept old last times kept) (hle : last ≤ now) : Kept old now times kept := by
  obtain ⟨dropped, hsplit, hold, hhead⟩ := hk.split
  exact ⟨hk.sorted, fun a ha => (hk.bound a ha).trans hle, hk.nonempty, dropped, hsplit,
    fun d hd => h.later last now d hle (hold d hd), fun hne a ha => (hhead hne a ha).trans_le hle⟩

/-- Pruning what is kept is pruning the whole record. -/
theorem Kept.prune_eq (h : Horizon old) (hk : Kept old last times kept) (hle : last ≤ now) :
    prune old now kept = window old now times := by
  obtain ⟨dropped, hsplit, hold, hhead⟩ := (hk.wait h hle).split
  rw [← prune_eq_window h hk.sorted, hsplit, prune_append h hold hhead hk.nonempty]

theorem sorted_push (hsorted : times.Pairwise (· ≤ ·)) (hbound : ∀ a ∈ times, a ≤ now) :
    (times ++ [now]).Pairwise (· ≤ ·) ∧ ∀ a ∈ times ++ [now], a ≤ now := by
  refine ⟨List.pairwise_append.2 ⟨hsorted, List.pairwise_singleton .., fun a ha b hb => ?_⟩, fun a ha => ?_⟩
  · rw [List.mem_singleton.1 hb]
    exact hbound a ha
  · rcases List.mem_append.1 ha with ha | ha
    · exact hbound a ha
    · exact (List.mem_singleton.1 ha).le

/-- A time recorded without pruning. -/
theorem Kept.push (h : Horizon old) (hk : Kept old last times kept) (hle : last ≤ now) :
    Kept old now (times ++ [now]) (kept ++ [now]) := by
  have hk := hk.wait h hle
  obtain ⟨hsorted, hbound⟩ := sorted_push hk.sorted hk.bound
  obtain ⟨dropped, rfl, hold, hhead⟩ := hk.split
  refine ⟨hsorted, hbound, by simp, dropped, List.append_assoc .., hold, fun hne a ha => hhead hne a ?_⟩
  rwa [List.head?_append_of_ne_nil _ hk.nonempty] at ha

/-- Pruning keeps the record. -/
theorem Kept.prune (h : Horizon old) : ∀ {kept : List α}, Kept old now times kept →
    Kept old now times (prune old now kept)
  | [], hk => hk
  | [_], hk => hk
  | t₀ :: t₁ :: rest, hk => by
    unfold SlidingWindow.prune
    by_cases hgo : old now t₀ = true ∧ t₁ < now
    · rw [if_pos hgo]
      obtain ⟨dropped, hsplit, hold, -⟩ := hk.split
      refine Kept.prune h ⟨hk.sorted, hk.bound, by simp, dropped ++ [t₀], by simp [hsplit], fun d hd => ?_,
        fun _ a ha => ?_⟩
      · rcases List.mem_append.1 hd with hd | hd
        · exact hold d hd
        · rw [List.mem_singleton.1 hd]
          exact hgo.1
      · cases ha
        exact hgo.2
    · rw [if_neg hgo]
      exact hk

theorem window_push (h : Horizon old) : window old now (times ++ [now]) = window old now times ++ [now] := by
  have hnow : old now now = false := Bool.eq_false_iff.2 (fun hold => lt_irrefl _ (h.past now now hold))
  have hrecent : (∃ a ∈ times ++ [now], old now a = false ∧ a < now) ↔ ∃ a ∈ times, old now a = false ∧ a < now := by
    simp
  unfold window
  simp only [hrecent, List.filter_append, List.filter_singleton, hnow, cond_false, Bool.not_false, cond_true,
    List.append_nil, List.append_assoc]

/-- A time recorded with pruning: what is kept is the window of the record. -/
theorem Kept.record (h : Horizon old) (hk : Kept old last times kept) (hle : last ≤ now) :
    Kept old now (times ++ [now]) (SlidingWindow.prune old now kept ++ [now]) ∧
      SlidingWindow.prune old now kept ++ [now] = window old now (times ++ [now]) := by
  refine ⟨((hk.wait h hle).prune h).push h le_rfl, ?_⟩
  rw [window_push h, hk.prune_eq h hle]

/-! ## The windows of two records -/

/-- The window of a record is no longer than that of one with more times in it. -/
theorem window_length_le {sub : List α} (hsub : sub.Sublist times) :
    (window old now sub).length ≤ (window old now times).length := by
  have hfresh := (hsub.filter (fun a => !old now a)).length_le
  have hold := (hsub.filter (old now)).length_le
  have hlast : ∀ l : List α, l.getLast?.toList.length ≤ 1 := fun l => by cases l.getLast? <;> simp
  unfold window
  rw [List.length_append, List.length_append]
  by_cases hs : ∃ a ∈ sub, old now a = false ∧ a < now
  · obtain ⟨a, ha, hrecent⟩ := hs
    rw [if_pos ⟨a, ha, hrecent⟩, if_pos ⟨a, hsub.subset ha, hrecent⟩]
    omega
  · rw [if_neg hs]
    by_cases hr : ∃ a ∈ times, old now a = false ∧ a < now
    · rw [if_pos hr]
      obtain ⟨a, ha, hfalse, hlt⟩ := hr
      -- the time in the past is one more
      have hpresent : sub.filter (fun a => !old now a) = (sub.filter (fun a => !old now a)).filter (now ≤ ·) := by
        refine (List.filter_eq_self.2 (fun a ha => ?_)).symm
        obtain ⟨ha, hnot⟩ := List.mem_filter.1 ha
        exact decide_eq_true (not_lt.1 (fun hlt => hs ⟨a, ha, by simpa using hnot, hlt⟩))
      have hle := ((hsub.filter (fun a => !old now a)).filter (now ≤ ·)).length_le
      have hmore : ((times.filter (fun a => !old now a)).filter (now ≤ ·)).length <
          (times.filter (fun a => !old now a)).length :=
        List.length_filter_lt_length_iff_exists.2 ⟨a, List.mem_filter.2 ⟨ha, by simp [hfalse]⟩, by simpa using hlt⟩
      rw [← hpresent] at hle
      have := hlast (sub.filter (old now))
      simp only [List.length_nil]
      omega
    · rw [if_neg hr]
      have hone : (sub.filter (old now)).getLast?.toList.length ≤ (times.filter (old now)).getLast?.toList.length := by
        cases hf : sub.filter (old now) with
        | nil => simp
        | cons a rest =>
          have hne : times.filter (old now) ≠ [] := by
            rw [hf] at hold
            exact List.length_pos_iff.1 (Nat.lt_of_lt_of_le (Nat.succ_pos _) hold)
          rw [List.getLast?_eq_some_getLast hne]
          exact hlast _
      omega

/-! ## Windows that are watched -/

section

variable {β : Type} (old : α → α → Bool) (now : α)

/-- Pruning, where the front of the window is read first. None if there is none. -/
def pruneWatched : List α → Option (List α)
  | [] => none
  | [t₀] => some [t₀]
  | t₀ :: t₁ :: rest => if old now t₀ ∧ t₁ < now then pruneWatched (t₁ :: rest) else some (t₀ :: t₁ :: rest)

/-- Pruning of a window and of a value for each time. None also if a value that has to go is not there. -/
def pruneBothWatched : List α → List β → Option (List α × List β)
  | [], _ => none
  | [t₀], values => some ([t₀], values)
  | t₀ :: t₁ :: rest, values =>
    if old now t₀ ∧ t₁ < now then
      match values with
      | [] => none
      | _ :: values => pruneBothWatched (t₁ :: rest) values
    else some (t₀ :: t₁ :: rest, values)

variable {old now}

theorem prune_ne_nil : ∀ {times : List α}, times ≠ [] → prune old now times ≠ []
  | [], h => absurd rfl h
  | [t₀], _ => List.cons_ne_nil t₀ []
  | t₀ :: t₁ :: rest, _ => by
    unfold prune
    split
    · exact prune_ne_nil (List.cons_ne_nil t₁ rest)
    · exact List.cons_ne_nil t₀ _

theorem length_prune_le : ∀ times : List α, (prune old now times).length ≤ times.length
  | [] => le_rfl
  | [_] => le_rfl
  | t₀ :: t₁ :: rest => by
    unfold prune
    split
    · exact (length_prune_le (t₁ :: rest)).trans (Nat.le_succ _)
    · exact le_rfl

/-- A window that has a time is never read where it has none. -/
theorem pruneWatched_eq : ∀ {times : List α}, times ≠ [] → pruneWatched old now times = some (prune old now times)
  | [], h => absurd rfl h
  | [_], _ => rfl
  | t₀ :: t₁ :: rest, _ => by
    unfold pruneWatched prune
    rw [pruneWatched_eq (List.cons_ne_nil t₁ rest)]
    split <;> rfl

/-- Nor is a list that is as long. -/
theorem pruneBothWatched_eq : ∀ {times : List α} {values : List β}, times ≠ [] → times.length = values.length →
    pruneBothWatched old now times values =
      some (prune old now times, values.drop (times.length - (prune old now times).length))
  | [], _, h, _ => absurd rfl h
  | [_], _, _, _ => rfl
  | _ :: _ :: _, [], _, hlen => absurd hlen (Nat.succ_ne_zero _)
  | t₀ :: t₁ :: rest, v :: values, _, hlen => by
    have hrest := pruneBothWatched_eq (List.cons_ne_nil t₁ rest) (Nat.succ.inj hlen)
    have hle := @length_prune_le α _ old now (t₁ :: rest)
    unfold pruneBothWatched prune
    split
    · have hdrop : (t₀ :: t₁ :: rest).length - (prune old now (t₁ :: rest)).length =
          (t₁ :: rest).length - (prune old now (t₁ :: rest)).length + 1 := Nat.succ_sub hle
      dsimp only
      rw [hrest, hdrop, List.drop_succ_cons]
    · rw [Nat.sub_self, List.drop_zero]

/-- The values stay as many as the times. -/
theorem length_drop_prune {times : List α} {values : List β} (h : times.length = values.length) :
    (values.drop (times.length - (prune old now times).length)).length = (prune old now times).length := by
  have hle := @length_prune_le α _ old now times
  rw [List.length_drop]
  omega

end

end SlidingWindow

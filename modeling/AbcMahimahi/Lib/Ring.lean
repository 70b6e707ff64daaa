/-
A list used as a ring: the elements from one index up to another, around the end of the list. Storing
a run behind them appends it, as long as one place stays free, and a run at their front can be taken
off by moving the first index.
-/
import Mathlib.Tactic

namespace Ring

variable {α : Type}

/-- The elements from `first` up to `last`, around the end. -/
def contents (buf : List α) (first last : Nat) : List α :=
  if first ≤ last then (buf.drop first).take (last - first) else buf.drop first ++ buf.take last

/-- The list with a run of elements written over it. -/
def store (buf : List α) (pos : Nat) (xs : List α) : List α := buf.take pos ++ xs ++ buf.drop (pos + xs.length)

/-- The index at the end is the one at the start. -/
def wrap (size i : Nat) : Nat := if i = size then 0 else i

theorem wrap_lt {size i : Nat} (hsize : 0 < size) (h : i ≤ size) : wrap size i < size := by
  unfold wrap
  split <;> omega

theorem wrap_of_ne {size i : Nat} (h : i ≠ size) : wrap size i = i := if_neg h

theorem wrap_end (size : Nat) : wrap size size = 0 := if_pos rfl

theorem length_store {buf xs : List α} {pos : Nat} (h : pos + xs.length ≤ buf.length) :
    (store buf pos xs).length = buf.length := by
  unfold store
  simp only [List.length_append, List.length_take, List.length_drop]
  omega

/-- A run changes nothing outside of itself. -/
theorem getElem?_store {buf xs : List α} {pos i : Nat} (h : pos + xs.length ≤ buf.length)
    (hi : i < pos ∨ pos + xs.length ≤ i) : (store buf pos xs)[i]? = buf[i]? := by
  unfold store
  have hlen : (buf.take pos).length = pos := by
    rw [List.length_take]
    omega
  rcases hi with hi | hi
  · rw [List.append_assoc, List.getElem?_append_left (by omega), List.getElem?_take_of_lt hi]
  · rw [List.getElem?_append_right (by rw [List.length_append]; omega), List.length_append, hlen, List.getElem?_drop]
    congr 1
    omega

theorem length_contents {buf : List α} {first last : Nat} (hfirst : first ≤ buf.length) (hlast : last ≤ buf.length) :
    (contents buf first last).length = if first ≤ last then last - first else buf.length - first + last := by
  unfold contents
  split
  · rw [List.length_take, List.length_drop]
    omega
  · rw [List.length_append, List.length_drop, List.length_take]
    omega

/-- A run stored behind the contents is appended to them, when a place stays free. -/
theorem contents_store {buf xs : List α} {first last : Nat} (hfirst : first < buf.length) (hlast : last < buf.length)
    (hfree : (contents buf first last).length + xs.length < buf.length) :
    contents (store buf last xs) first (wrap buf.length (last + xs.length)) = contents buf first last ++ xs := by
  rw [length_contents (le_of_lt hfirst) (le_of_lt hlast)] at hfree
  have htake : (buf.take last).length = last := by
    rw [List.length_take]
    omega
  by_cases hle : first ≤ last
  · rw [if_pos hle] at hfree
    -- the contents, and the run right behind them
    have hdrop : (store buf last xs).drop first = (buf.drop first).take (last - first) ++ xs ++ buf.drop (last + xs.length) := by
      unfold store
      rw [List.append_assoc, List.drop_append_of_le_length (by omega), List.drop_take, ← List.append_assoc]
    have hfront : ((buf.drop first).take (last - first) ++ xs).length = last + xs.length - first := by
      rw [List.length_append, List.length_take, List.length_drop]
      omega
    by_cases hend : last + xs.length = buf.length
    · have hempty : (store buf last xs).drop first = (buf.drop first).take (last - first) ++ xs := by
        rw [hdrop, hend, List.drop_length, List.append_nil]
      rw [hend, wrap_end]
      unfold contents
      rw [if_pos hle, if_neg (by omega), hempty, List.take_zero, List.append_nil]
    · rw [wrap_of_ne hend]
      unfold contents
      rw [if_pos hle, if_pos (by omega), hdrop, ← hfront, List.take_left]
  · rw [if_neg hle] at hfree
    -- the run lies in front of the first element
    have hdrop : (store buf last xs).drop first = buf.drop first := by
      unfold store
      have hfront : (buf.take last ++ xs).length = last + xs.length := by rw [List.length_append, htake]
      rw [List.drop_append, List.drop_of_length_le (by omega), hfront, List.nil_append, List.drop_drop]
      congr 1
      omega
    have hfront : (store buf last xs).take (last + xs.length) = buf.take last ++ xs := by
      unfold store
      rw [show last + xs.length = (buf.take last ++ xs).length by rw [List.length_append, htake], List.take_left]
    rw [wrap_of_ne (by omega)]
    unfold contents
    rw [if_neg hle, if_neg (by omega), hdrop, hfront, List.append_assoc]

/-- A run at the front of the contents that does not go around the end. -/
theorem contents_run {buf : List α} {first last n : Nat} (hfirst : first < buf.length) (hlast : last < buf.length)
    (_hrun : first + n ≤ buf.length) (hn : n ≤ (contents buf first last).length) :
    contents buf first last = (buf.drop first).take n ++ contents buf (wrap buf.length (first + n)) last := by
  rw [length_contents (le_of_lt hfirst) (le_of_lt hlast)] at hn
  by_cases hle : first ≤ last
  · rw [if_pos hle] at hn
    rw [wrap_of_ne (by omega)]
    unfold contents
    rw [if_pos hle, if_pos (by omega)]
    rw [show last - first = n + (last - (first + n)) by omega, List.take_add, List.drop_drop]
  · rw [if_neg hle] at hn
    by_cases hend : first + n = buf.length
    · have hall : (buf.drop first).take n = buf.drop first := List.take_of_length_le (by rw [List.length_drop]; omega)
      rw [hend, wrap_end, hall]
      unfold contents
      rw [if_neg hle, if_pos (Nat.zero_le _), List.drop_zero, Nat.sub_zero]
    · rw [wrap_of_ne hend]
      unfold contents
      rw [if_neg hle, if_neg (by omega), ← List.append_assoc, ← List.drop_drop, List.take_append_drop]

end Ring

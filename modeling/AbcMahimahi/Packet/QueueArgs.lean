/-
Arguments of a queue, read by name (`DroppingPacketQueue::get_arg`). The name is searched for as a
string, wherever it stands; since no name has another one in it, and a comma and an equals sign keep
names and numbers apart, the first occurrence is where the name is bound.
-/
import AbcMahimahi.Packet.Dropping
import AbcMahimahi.Util.Ezio

namespace AbcMahimahi.Packet

open Bytes

/-- `DroppingPacketQueue::get_arg`. -/
def DroppingPacketQueue.getArg (args name : Bytes) : Except Fault Nat :=
  match find name args with
  | none => pure 0
  | some offset => do
    let offset := offset + name.length
    let next ← orOutOfRange (substr args offset 1)
    if next ≠ ascii "=" then
      throw (.runtimeError (ascii "could not parse queue arguments: " ++ args))
    else do
      let offset := offset + 1
      let rest ← orOutOfRange (substr args offset args.length)
      -- the first byte that is no digit, `npos` if there is none
      let offset2 := (rest.findIdx? fun b => !isDigit 10 b).getD rest.length
      let digitString := rest.take offset2
      if digitString = [] then
        throw (.runtimeError (ascii "could not parse queue arguments: " ++ args))
      else do
        let value ← myatoi digitString 10
        -- a `long` becomes an `unsigned int`
        pure (value % 2 ^ 32).toNat

/-! ## Printed arguments -/

/-- The names that some discipline asks for. -/
inductive QueueArg where
  | packets
  | bytes
  | target
  | interval
  | qdelayRef
  | maxBurst
  | delta
  | alpha
  | beta
  | mode
  deriving DecidableEq, Repr

def QueueArg.name : QueueArg → Bytes
  | packets => ascii "packets"
  | bytes => ascii "bytes"
  | target => ascii "target"
  | interval => ascii "interval"
  | qdelayRef => ascii "qdelay_ref"
  | maxBurst => ascii "max_burst"
  | delta => ascii "delta"
  | alpha => ascii "alpha"
  | beta => ascii "beta"
  | mode => ascii "mode"

/-- `NAME=NUMBER`, and whether a space comes after the comma that follows it. -/
structure Binding where
  arg : QueueArg
  digits : Bytes
  number : Nat
  decimal : Decimal digits number
  fits : number < 2 ^ 32
  spaced : Bool

def Binding.text (b : Binding) : Bytes := b.arg.name ++ 61 :: b.digits

def Binding.separator (b : Binding) : Bytes := if b.spaced then [44, 32] else [44]

def printArgs : List Binding → Bytes
  | [] => []
  | [b] => b.text
  | b :: rest => b.text ++ b.separator ++ printArgs rest

/-! ## Where a name is found -/

theorem name_ne_nil (arg : QueueArg) : arg.name ≠ [] := by cases arg <;> decide

/-- No name has another one in it. -/
theorem find_name_name {a b : QueueArg} (h : a ≠ b) : find a.name b.name = none := by
  cases a <;> cases b <;> first | exact absurd rfl h | decide

/-- What keeps names and numbers apart is in no name. -/
theorem not_mem_name (arg : QueueArg) : 61 ∉ arg.name ∧ 44 ∉ arg.name ∧ 32 ∉ arg.name := by
  cases arg <;> decide

theorem not_digit_name (arg : QueueArg) : arg.name.all (fun b => !isDigit 10 b) = true := by
  cases arg <;> decide

theorem find_name_digits (arg : QueueArg) {digits : Bytes} (h : digits.all (isDigit 10) = true) :
    find arg.name digits = none := by
  refine find_disjoint (name_ne_nil arg) fun b hb hmem => ?_
  have hnot := List.all_eq_true.1 (not_digit_name arg) b hb
  rw [List.all_eq_true.1 h b hmem] at hnot
  cases hnot

theorem find_name_text (arg : QueueArg) (b : Binding) :
    find arg.name b.text = if b.arg = arg then some 0 else none := by
  unfold Binding.text
  rw [find_around (name_ne_nil arg) (not_mem_name arg).1, find_name_digits arg b.decimal.digits]
  by_cases h : b.arg = arg
  · rw [if_pos h, h, find_self (name_ne_nil arg)]
    rfl
  · rw [if_neg h, find_name_name (Ne.symm h)]
    rfl

/-- A name is not found across a separator. -/
theorem find_name_separator (arg : QueueArg) (b : Binding) (x y : Bytes) :
    find arg.name (x ++ (b.separator ++ y)) =
      (find arg.name x).or ((find arg.name y).map (· + (x.length + b.separator.length))) := by
  obtain ⟨-, hcomma, hspace⟩ := not_mem_name arg
  unfold Binding.separator
  split
  · rw [List.cons_append, find_around (name_ne_nil arg) hcomma, List.cons_append, List.nil_append]
    have hafter := find_around (x := []) (y := y) (name_ne_nil arg) hspace
    rw [List.nil_append, find_nil (name_ne_nil arg), Option.none_or] at hafter
    rw [hafter, Option.map_map]
    congr 2
    funext i
    simp only [Function.comp, List.length_cons, List.length_nil]
    omega
  · rw [List.cons_append, find_around (name_ne_nil arg) hcomma]
    rfl

/-- The name is found where it is bound. -/
inductive FoundAt (arg : QueueArg) (text : Bytes) (b : Binding) : Prop
  | intro (before after : Bytes) (harg : b.arg = arg) (htext : text = before ++ (b.text ++ after))
      (hfind : find arg.name text = some before.length) (hstop : ∀ c ∈ after.head?, isDigit 10 c = false)

theorem head_separator (b : Binding) (y : Bytes) : ∀ c ∈ (b.separator ++ y).head?, isDigit 10 c = false := by
  intro c hc
  have hcomma : c = 44 := by
    unfold Binding.separator at hc
    split at hc
    · simpa using hc.symm
    · simpa using hc.symm
  rw [hcomma]
  decide

theorem find_printArgs (arg : QueueArg) : ∀ bs : List Binding,
    (∀ b ∈ bs, b.arg ≠ arg) ∧ find arg.name (printArgs bs) = none ∨ ∃ b ∈ bs, FoundAt arg (printArgs bs) b
  | [] => Or.inl ⟨fun b hb => absurd hb List.not_mem_nil, find_nil (name_ne_nil arg)⟩
  | [b] => by
    have hfind := find_name_text arg b
    by_cases harg : b.arg = arg
    · rw [if_pos harg] at hfind
      refine Or.inr ⟨b, List.mem_singleton.2 rfl, .intro [] [] harg ?_ hfind (by simp)⟩
      rw [List.nil_append, List.append_nil]
      rfl
    · rw [if_neg harg] at hfind
      exact Or.inl ⟨by simpa using harg, hfind⟩
  | b :: b' :: bs => by
    have hprint : printArgs (b :: b' :: bs) = b.text ++ (b.separator ++ printArgs (b' :: bs)) := List.append_assoc ..
    have hfind := find_name_separator arg b b.text (printArgs (b' :: bs))
    rw [← hprint, find_name_text] at hfind
    by_cases harg : b.arg = arg
    · rw [if_pos harg, Option.some_or] at hfind
      exact Or.inr ⟨b, List.mem_cons_self .., .intro [] (b.separator ++ printArgs (b' :: bs)) harg hprint hfind
        (head_separator b _)⟩
    · rw [if_neg harg, Option.none_or] at hfind
      rcases find_printArgs arg (b' :: bs) with ⟨hnone, hrest⟩ | ⟨c, hc, hfound⟩
      · rw [hrest] at hfind
        exact Or.inl ⟨List.forall_mem_cons.2 ⟨harg, hnone⟩, hfind⟩
      · obtain ⟨before, after, hcarg, htext, hrest, hstop⟩ := hfound
        refine Or.inr ⟨c, List.mem_cons_of_mem _ hc, .intro (b.text ++ b.separator ++ before) after hcarg ?_ ?_ hstop⟩
        · rw [hprint, htext]
          simp only [List.append_assoc]
        · rw [hfind, hrest, Option.map_some, List.length_append, List.length_append, Nat.add_comm]

/-! ## What is read there -/

namespace DroppingPacketQueue

theorem takeWhile_digits {digits after : Bytes} (hdigits : digits.all (isDigit 10) = true)
    (hstop : ∀ c ∈ after.head?, isDigit 10 c = false) :
    (digits ++ after).take (((digits ++ after).findIdx? fun b => !isDigit 10 b).getD (digits ++ after).length) = digits := by
  have hnone : digits.findIdx? (fun b => !isDigit 10 b) = none := by
    rw [List.findIdx?_eq_none_iff]
    intro b hb
    rw [List.all_eq_true.1 hdigits b hb]
    rfl
  rw [List.findIdx?_append, hnone, Option.none_or]
  cases after with
  | nil => simp
  | cons c cs =>
    rw [List.findIdx?_cons, hstop c rfl]
    simp

/-- The number after a name. -/
theorem getArg_at {b : Binding} {text : Bytes} (h : FoundAt b.arg text b) : getArg text b.arg.name = .ok b.number := by
  obtain ⟨before, after, -, htext, hfind, hstop⟩ := h
  have hequals : text = (before ++ b.arg.name) ++ (61 :: (b.digits ++ after)) := by
    rw [htext, Binding.text]
    simp only [List.append_assoc, List.cons_append]
  have hvalue : text = (before ++ b.arg.name ++ [61]) ++ (b.digits ++ after) := by
    rw [hequals]
    simp only [List.append_assoc, List.cons_append, List.nil_append]
  have hnext : substr text (before.length + b.arg.name.length) 1 = some [61] := by
    rw [hequals, ← List.length_append, substr_append]
    rfl
  have hrest : substr text (before.length + b.arg.name.length + 1) text.length = some (b.digits ++ after) := by
    have hlength : before.length + b.arg.name.length + 1 = (before ++ b.arg.name ++ [61]).length := by
      rw [List.length_append, List.length_append]
      rfl
    rw [hlength]
    conv_lhs => rw [hvalue]
    rw [substr_append, List.take_of_length_le (by simp only [List.length_append]; omega)]
  have hfits := b.fits
  unfold getArg
  rw [hfind]
  dsimp only
  rw [hnext, hrest]
  simp only [orOutOfRange, Run.ok_bind, Run.pure_ok]
  rw [if_neg (by decide), takeWhile_digits b.decimal.digits hstop, if_neg b.decimal.nonempty,
    myatoi_digits b.decimal.nonempty b.decimal.digits (by rw [b.decimal.number]; omega), b.decimal.number, Run.ok_bind]
  congr 1
  omega

end DroppingPacketQueue

/-- Printed in any order and joined by commas, with spaces after them or without, arguments of distinct
names are read by name: the number bound to a name, and zero for a name that is not bound. -/
theorem getArg_printArgs (bs : List Binding) (hdistinct : (bs.map (·.arg)).Nodup) (arg : QueueArg) :
    (∀ b ∈ bs, b.arg = arg → DroppingPacketQueue.getArg (printArgs bs) arg.name = .ok b.number) ∧
      ((∀ b ∈ bs, b.arg ≠ arg) → DroppingPacketQueue.getArg (printArgs bs) arg.name = .ok 0) := by
  rcases find_printArgs arg bs with ⟨hnone, hfind⟩ | ⟨c, hc, hfound⟩
  · refine ⟨fun b hb harg => absurd harg (hnone b hb), fun _ => ?_⟩
    unfold DroppingPacketQueue.getArg
    rw [hfind]
    rfl
  · obtain rfl : c.arg = arg := by
      cases hfound
      assumption
    refine ⟨fun b hb harg => ?_, fun h => absurd rfl (h c hc)⟩
    obtain rfl := List.inj_on_of_nodup_map hdistinct hb hc harg
    exact DroppingPacketQueue.getArg_at hfound

theorem getArg_printArgs_small :
    DroppingPacketQueue.getArg (ascii "bytes=3000, packets=100") (ascii "packets") = .ok 100 ∧
      DroppingPacketQueue.getArg (ascii "bytes=3000, packets=100") (ascii "delta") = .ok 0 := by
  have hbytes : Decimal (ascii "3000") 3000 := ⟨by decide, by decide, by decide⟩
  have hpackets : Decimal (ascii "100") 100 := ⟨by decide, by decide, by decide⟩
  have hread := getArg_printArgs
    [⟨.bytes, ascii "3000", 3000, hbytes, by decide, true⟩, ⟨.packets, ascii "100", 100, hpackets, by decide, false⟩] (by simp)
  exact ⟨(hread .packets).1 ⟨.packets, ascii "100", 100, hpackets, by decide, false⟩ (by simp) rfl,
    (hread .delta).2 (by simp)⟩

end AbcMahimahi.Packet

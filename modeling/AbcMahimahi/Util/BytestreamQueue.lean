/-
A queue of bytes between two descriptors, on a string used as a ring with one place that stays free.
What a descriptor's `read` returns and how many bytes its `write` takes are parameters of the calls.
-/
import AbcMahimahi.Lib.Ring
import AbcMahimahi.Lib.Run
import AbcMahimahi.Util.Fault

namespace AbcMahimahi

open Bytes

structure ByteStreamQueue where
  buffer : Bytes
  nextByteToPush : Nat
  nextByteToPop : Nat
  deriving DecidableEq, Repr

namespace ByteStreamQueue

inductive Result where
  | success
  | endOfFile
  deriving DecidableEq, Repr

/-- `ByteStreamQueue( size )` -/
def make (size : Nat) : Except Fault ByteStreamQueue := do
  check "size > 1" (1 < size)
  pure ⟨List.replicate size 0, 0, 0⟩

def availableToPop (q : ByteStreamQueue) : Nat :=
  u64 (sub64 q.nextByteToPush q.nextByteToPop + if q.nextByteToPop > q.nextByteToPush then q.buffer.length else 0)

def availableToPush (q : ByteStreamQueue) : Nat :=
  u64 (sub64 (sub64 q.nextByteToPop q.nextByteToPush) 1 +
    if q.nextByteToPop > q.nextByteToPush then 0 else q.buffer.length)

def spaceAvailable (q : ByteStreamQueue) : Bool := 0 < q.availableToPush

def nonEmpty (q : ByteStreamQueue) : Bool := 0 < q.availableToPop

/-- `contiguous_space_to_push` -/
def contiguousSpaceToPush (q : ByteStreamQueue) : Nat :=
  if q.buffer.length ≤ u64 (q.nextByteToPush + q.availableToPush) then sub64 q.buffer.length q.nextByteToPush
  else q.availableToPush

/-- `contiguous_space_to_pop` -/
def contiguousSpaceToPop (q : ByteStreamQueue) : Nat :=
  if q.buffer.length ≤ u64 (q.nextByteToPop + q.availableToPop) then sub64 q.buffer.length q.nextByteToPop
  else q.availableToPop

/-- The new chunk is copied into the buffer. -/
def store (q : ByteStreamQueue) (newChunk : Bytes) : Except Fault ByteStreamQueue := do
  check "new_chunk.size() <= buffer_.size() - next_byte_to_push"
    (newChunk.length ≤ sub64 q.buffer.length q.nextByteToPush)
  let _ ← orOutOfRange q.buffer[q.nextByteToPush]?
  let next := u64 (q.nextByteToPush + newChunk.length)
  check "next_byte_to_push <= buffer_.size()" (next ≤ q.buffer.length)
  pure { q with
    buffer := Ring.store q.buffer q.nextByteToPush newChunk
    nextByteToPush := if next = q.buffer.length then 0 else next }

/-- `push`: what `read( limit )` of the descriptor returns is `read limit`. -/
def push (q : ByteStreamQueue) (read : Nat → Bytes) : Except Fault (Result × ByteStreamQueue) := do
  check "space_available()" q.spaceAvailable
  check "contiguous_space_to_push > 0" (0 < q.contiguousSpaceToPush)
  if (read q.contiguousSpaceToPush).isEmpty then pure (.endOfFile, q)
  else do
    let q ← q.store (read q.contiguousSpaceToPush)
    check "non_empty()" q.nonEmpty
    pure (.success, q)

/-- The bytes that `pop` offers to the descriptor. -/
def offered (q : ByteStreamQueue) : Bytes := (q.buffer.drop q.nextByteToPop).take q.contiguousSpaceToPop

/-- `pop`: of the bytes offered to it, the descriptor's `write` takes `write offered`. -/
def pop (q : ByteStreamQueue) (write : Bytes → Nat) : Except Fault ByteStreamQueue := do
  check "non_empty()" q.nonEmpty
  -- an offset between iterators is a signed number
  check "end_of_pop >= pop_iterator" (q.contiguousSpaceToPop < 2 ^ 63)
  if q.offered.isEmpty then throw (.runtimeError (ascii "nothing to write"))
  else do
    let next := q.nextByteToPop + write q.offered
    check "next_byte_to_pop <= buffer_.size()" (next ≤ q.buffer.length)
    pure { q with nextByteToPop := if next = q.buffer.length then 0 else next }

/-! ## The bytes held -/

/-- The bytes pushed and not yet popped. -/
def held (q : ByteStreamQueue) : Bytes := Ring.contents q.buffer q.nextByteToPop q.nextByteToPush

/-- The places of the bytes held. -/
def Unread (q : ByteStreamQueue) (i : Nat) : Prop :=
  if q.nextByteToPop ≤ q.nextByteToPush then q.nextByteToPop ≤ i ∧ i < q.nextByteToPush
  else i < q.nextByteToPush ∨ q.nextByteToPop ≤ i

/-- Both indices lie in the buffer, which is a `std::string`. -/
structure Inv (q : ByteStreamQueue) : Prop where
  pushInside : q.nextByteToPush < q.buffer.length
  popInside : q.nextByteToPop < q.buffer.length
  fits : q.buffer.length < 2 ^ 63

namespace Inv

variable {q : ByteStreamQueue}

theorem availableToPop_eq (h : q.Inv) : q.availableToPop = q.held.length := by
  obtain ⟨hpush, hpop, hfits⟩ := h
  unfold held availableToPop
  rw [Ring.length_contents (le_of_lt hpop) (le_of_lt hpush)]
  unfold u64 sub64
  split <;> split <;> omega

theorem availableToPush_eq (h : q.Inv) : q.availableToPush = q.buffer.length - 1 - q.held.length := by
  obtain ⟨hpush, hpop, hfits⟩ := h
  unfold held availableToPush
  rw [Ring.length_contents (le_of_lt hpop) (le_of_lt hpush)]
  unfold u64 sub64
  split <;> split <;> omega

/-- One place stays free. -/
theorem length_held_lt (h : q.Inv) : q.held.length < q.buffer.length := by
  obtain ⟨hpush, hpop, hfits⟩ := h
  unfold held
  rw [Ring.length_contents (le_of_lt hpop) (le_of_lt hpush)]
  split <;> omega

/-- What one call can push: up to the place that stays free, and up to the end of the buffer. -/
theorem contiguousSpaceToPush_spec (h : q.Inv) :
    q.contiguousSpaceToPush = min (q.buffer.length - 1 - q.held.length) (q.buffer.length - q.nextByteToPush) := by
  have hpush := h.pushInside
  have hfits := h.fits
  unfold contiguousSpaceToPush
  rw [h.availableToPush_eq, u64_eq (by omega), sub64_eq (le_of_lt hpush) (by omega)]
  split <;> omega

theorem contiguousSpaceToPop_spec (h : q.Inv) :
    q.contiguousSpaceToPop = min q.held.length (q.buffer.length - q.nextByteToPop) := by
  have hpop := h.popInside
  have hfits := h.fits
  have hheld := h.length_held_lt
  unfold contiguousSpaceToPop
  rw [h.availableToPop_eq, u64_eq (by omega), sub64_eq (le_of_lt hpop) (by omega)]
  split <;> omega

/-- `push` appends what was read to the bytes held, and overwrites none of them. -/
theorem push_spec (h : q.Inv) (hspace : q.spaceAvailable = true) {read : Nat → Bytes}
    (hread : (read q.contiguousSpaceToPush).length ≤ q.contiguousSpaceToPush) :
    ∃ r q', q.push read = .ok (r, q') ∧ q'.Inv ∧ q'.buffer.length = q.buffer.length ∧
      q'.held = q.held ++ read q.contiguousSpaceToPush ∧ ∀ i, q.Unread i → q'.buffer[i]? = q.buffer[i]? := by
  have hpush := h.pushInside
  have hfits := h.fits
  have hspec := h.contiguousSpaceToPush_spec
  have hroom : 0 < q.contiguousSpaceToPush := by
    unfold spaceAvailable at hspace
    rw [decide_eq_true_iff, h.availableToPush_eq] at hspace
    omega
  unfold push
  rw [check_of hspace, Run.ok_bind, check_of (decide_eq_true hroom), Run.ok_bind]
  generalize read q.contiguousSpaceToPush = chunk at hread ⊢
  by_cases hempty : chunk.isEmpty = true
  · rw [if_pos hempty]
    rw [List.isEmpty_iff] at hempty
    subst hempty
    exact ⟨_, q, rfl, h, rfl, (List.append_nil _).symm, fun _ _ => rfl⟩
  · rw [if_neg hempty]
    have hpos : 0 < chunk.length := List.length_pos_iff.2 (by simpa using hempty)
    have hfree : q.held.length + chunk.length < q.buffer.length := by
      have := h.length_held_lt
      omega
    have hnext : u64 (q.nextByteToPush + chunk.length) = q.nextByteToPush + chunk.length := u64_eq (by omega)
    have hheld := Ring.contents_store h.popInside hpush hfree
    have hlen : (Ring.store q.buffer q.nextByteToPush chunk).length = q.buffer.length := Ring.length_store (by omega)
    have hstore : q.store chunk = .ok { q with
        buffer := Ring.store q.buffer q.nextByteToPush chunk
        nextByteToPush := Ring.wrap q.buffer.length (q.nextByteToPush + chunk.length) } := by
      unfold store
      rw [check_of (decide_eq_true (by rw [sub64_eq (le_of_lt hpush) (by omega)]; omega)), Run.ok_bind,
        List.getElem?_eq_getElem hpush]
      dsimp only [orOutOfRange]
      rw [Run.ok_bind, hnext, check_of (decide_eq_true (by omega))]
      rfl
    have hinv : Inv { q with
        buffer := Ring.store q.buffer q.nextByteToPush chunk
        nextByteToPush := Ring.wrap q.buffer.length (q.nextByteToPush + chunk.length) } := by
      refine ⟨?_, ?_, ?_⟩
      · rw [hlen]
        exact Ring.wrap_lt (by omega) (by omega)
      · rw [hlen]
        exact h.popInside
      · rw [hlen]
        exact hfits
    have hnonEmpty : nonEmpty { q with
        buffer := Ring.store q.buffer q.nextByteToPush chunk
        nextByteToPush := Ring.wrap q.buffer.length (q.nextByteToPush + chunk.length) } = true := by
      unfold nonEmpty
      rw [decide_eq_true_iff, hinv.availableToPop_eq]
      unfold held
      rw [hheld, List.length_append]
      omega
    rw [hstore, Run.ok_bind, check_of hnonEmpty]
    refine ⟨_, _, rfl, hinv, hlen, hheld, fun i hi => Ring.getElem?_store (by omega) ?_⟩
    have hwidth := Ring.length_contents (le_of_lt h.popInside) (le_of_lt hpush)
    unfold held at hfree
    unfold Unread at hi
    split at hi
    · omega
    · rename_i hwrapped
      rw [if_neg hwrapped] at hwidth
      omega

/-- `pop` takes what was written off the front of the bytes held. -/
theorem pop_spec (h : q.Inv) (hnonEmpty : q.nonEmpty = true) {write : Bytes → Nat}
    (hwrite : q.offered ≠ [] → write q.offered ≤ q.offered.length) :
    ∃ q', q.pop write = .ok q' ∧ q'.Inv ∧ q'.buffer.length = q.buffer.length ∧
      q.held = q.offered.take (write q.offered) ++ q'.held := by
  have hpop := h.popInside
  have hfits := h.fits
  have hspec := h.contiguousSpaceToPop_spec
  have hsome : 0 < q.held.length := by
    unfold nonEmpty at hnonEmpty
    rwa [decide_eq_true_iff, h.availableToPop_eq] at hnonEmpty
  have hlen : q.offered.length = q.contiguousSpaceToPop := by
    unfold offered
    rw [List.length_take, List.length_drop]
    omega
  have hoffered : q.offered.isEmpty = false := by
    rw [List.isEmpty_eq_false_iff, ← List.length_pos_iff]
    omega
  replace hwrite := hwrite (List.isEmpty_eq_false_iff.1 hoffered)
  have hrun := Ring.contents_run (n := write q.offered) hpop h.pushInside (by omega) (by unfold held at hspec hsome; omega)
  unfold pop
  rw [check_of hnonEmpty, Run.ok_bind, check_of (decide_eq_true (by omega)), Run.ok_bind, hoffered,
    if_neg Bool.false_ne_true]
  dsimp only
  rw [check_of (decide_eq_true (by omega))]
  refine ⟨_, rfl, ⟨h.pushInside, ?_, hfits⟩, rfl, ?_⟩
  · exact Ring.wrap_lt (by omega) (by omega)
  · refine hrun.trans ?_
    congr 1
    unfold offered at hwrite ⊢
    rw [List.take_take]
    congr 1
    rw [List.length_take] at hwrite
    omega

end Inv

/-! ## Any interleaving of calls -/

/-- A call, with what the descriptor does in it. -/
inductive Call where
  | push (read : Nat → Bytes)
  | pop (write : Bytes → Nat)

/-- The bytes read from a descriptor and those written to one in a call. -/
structure Traffic where
  read : Bytes := []
  written : Bytes := []

def call (q : ByteStreamQueue) : Call → Except Fault (Traffic × ByteStreamQueue)
  | .push read => do
    let (_, q') ← q.push read
    pure ({ read := read q.contiguousSpaceToPush }, q')
  | .pop write => do
    let q' ← q.pop write
    pure ({ written := q.offered.take (write q.offered) }, q')

/-- `push` is called when there is space and `pop` when there are bytes; `read` returns up to the
limit, and `write` takes at least a byte and at most what is offered. -/
def Proper (q : ByteStreamQueue) : Call → Prop
  | .push read => q.spaceAvailable = true ∧ ∀ limit, (read limit).length ≤ limit
  | .pop write => q.nonEmpty = true ∧ ∀ offered, offered ≠ [] → 1 ≤ write offered ∧ write offered ≤ offered.length

def bytesRead (traffic : List Traffic) : Bytes := traffic.flatMap (·.read)

def bytesWritten (traffic : List Traffic) : Bytes := traffic.flatMap (·.written)

/-- A queue of a given size that has taken in `input` and given out `output`. -/
structure Holds (size : Nat) (input output : Bytes) (q : ByteStreamQueue) : Prop where
  inv : q.Inv
  size : q.buffer.length = size
  fifo : input = output ++ q.held

theorem Holds.step {size : Nat} {input output : Bytes} {q : ByteStreamQueue} (h : Holds size input output q) {c : Call}
    (hc : q.Proper c) : ∃ t q', q.call c = .ok (t, q') ∧ Holds size (input ++ t.read) (output ++ t.written) q' := by
  cases c with
  | push read =>
    obtain ⟨hspace, hread⟩ := hc
    obtain ⟨r, q', hpush, hinv, hlen, hheld, -⟩ := h.inv.push_spec hspace (hread _)
    refine ⟨{ read := read q.contiguousSpaceToPush }, q', ?_, hinv, hlen.trans h.size, ?_⟩
    · unfold ByteStreamQueue.call
      dsimp only
      rw [hpush]
      rfl
    · rw [hheld, h.fifo]
      simp only [List.append_assoc, List.append_nil]
  | pop write =>
    obtain ⟨hnonEmpty, hwrite⟩ := hc
    obtain ⟨q', hpop, hinv, hlen, hheld⟩ := h.inv.pop_spec hnonEmpty fun hne => (hwrite _ hne).2
    refine ⟨{ written := q.offered.take (write q.offered) }, q', ?_, hinv, hlen.trans h.size, ?_⟩
    · unfold ByteStreamQueue.call
      dsimp only
      rw [hpop]
      rfl
    · rw [h.fifo, hheld]
      simp only [List.append_assoc, List.append_nil]

theorem Holds.steps {size : Nat} : ∀ {calls : List Call} {input output : Bytes} {q : ByteStreamQueue},
    Holds size input output q → Run.Along call Proper q calls →
    ∃ traffic q', Run.steps call q calls = .ok (traffic, q') ∧
      Holds size (input ++ bytesRead traffic) (output ++ bytesWritten traffic) q'
  | [], input, output, q, h, _ => ⟨[], q, rfl, by simpa [bytesRead, bytesWritten] using h⟩
  | c :: calls, input, output, q, h, hc => by
    obtain ⟨t, q', hcall, h'⟩ := h.step hc.1
    obtain ⟨traffic, q'', hcalls, h''⟩ := h'.steps (hc.2 t q' hcall)
    refine ⟨t :: traffic, q'', Run.steps_cons hcall hcalls, ?_⟩
    simpa [bytesRead, bytesWritten] using h''

theorem make_holds {size : Nat} (hsize : 1 < size) (hfits : size < 2 ^ 63) : ∃ q, make size = .ok q ∧ Holds size [] [] q := by
  refine ⟨⟨List.replicate size 0, 0, 0⟩, ?_, ⟨?_, ?_, ?_⟩, List.length_replicate, ?_⟩
  · unfold make
    rw [check_of (decide_eq_true hsize)]
    rfl
  · rw [List.length_replicate]; dsimp only; omega
  · rw [List.length_replicate]; dsimp only; omega
  · rw [List.length_replicate]; exact hfits
  · show [] = [] ++ Ring.contents (List.replicate size (0 : UInt8)) 0 0
    unfold Ring.contents
    rw [if_pos le_rfl, Nat.sub_zero, List.take_zero]
    rfl

/-- The queue is a bounded FIFO of bytes. Whatever its size, calls made when there is space and when
there are bytes never fail an assertion, in any order and with any partial reads and writes: the
bytes read are those written and then those still held, in order, of which `available_to_pop` is the
number; one place short of the size is for the bytes held and for more, and no push overwrites a
byte that is held. -/
theorem bounded_fifo {size : Nat} (hsize : 1 < size) (hfits : size < 2 ^ 63) :
    ∃ q, make size = .ok q ∧ ∀ calls, Run.Along call Proper q calls →
      ∃ traffic q', Run.steps call q calls = .ok (traffic, q') ∧
        bytesRead traffic = bytesWritten traffic ++ q'.held ∧
        q'.held.length = q'.availableToPop ∧
        q'.availableToPop + q'.availableToPush = size - 1 ∧
        ∀ read r q'', q'.Proper (.push read) → q'.push read = .ok (r, q'') →
          ∀ i, q'.Unread i → q''.buffer[i]? = q'.buffer[i]? := by
  obtain ⟨q, hmake, hstart⟩ := make_holds hsize hfits
  refine ⟨q, hmake, fun calls hcalls => ?_⟩
  obtain ⟨traffic, q', hrun, hholds⟩ := hstart.steps hcalls
  refine ⟨traffic, q', hrun, hholds.fifo, hholds.inv.availableToPop_eq.symm, ?_, ?_⟩
  · rw [hholds.inv.availableToPop_eq, hholds.inv.availableToPush_eq, hholds.size]
    have := hholds.inv.length_held_lt
    rw [hholds.size] at this
    omega
  · intro read r q'' hproper hpush
    obtain ⟨r', q₁, hpush', -, -, -, hkept⟩ := hholds.inv.push_spec hproper.1 (hproper.2 _)
    rw [hpush'] at hpush
    cases hpush
    exact hkept

theorem bounded_fifo_small : ∃ traffic q',
    Run.steps call ⟨[0, 0, 0], 0, 0⟩ [.push fun n => [1, 2].take n, .pop List.length] = .ok (traffic, q') ∧
      bytesRead traffic = bytesWritten traffic ++ q'.held ∧ q'.held.length = q'.availableToPop ∧
      q'.availableToPop + q'.availableToPush = 3 - 1 := by
  obtain ⟨q, hmake, hq⟩ := @bounded_fifo 3 (by decide) (by decide)
  cases hmake
  have hproper : Run.Along call Proper ⟨[0, 0, 0], 0, 0⟩ [.push fun n => [1, 2].take n, .pop List.length] := by
    refine ⟨⟨by decide, fun limit => by rw [List.length_take]; omega⟩, fun t q' h => ?_⟩
    cases (show Except.ok (⟨[1, 2], []⟩, ⟨[1, 2, 0], 2, 0⟩) = Except.ok (t, q') from h)
    exact ⟨⟨by decide, fun offered hne => ⟨List.length_pos_iff.2 hne, le_rfl⟩⟩, fun _ _ _ => trivial⟩
  obtain ⟨traffic, q', hrun, hfifo, hpop, hspace, -⟩ := hq _ hproper
  exact ⟨traffic, q', hrun, hfifo, hpop, hspace⟩

/-- Filled, emptied and filled again around the end. -/
example : (Run.steps call ⟨[0, 0, 0], 0, 0⟩
    [.push fun n => [1, 2, 3].take n, .pop List.length, .push fun n => [4, 5].take n, .push fun n => [6].take n]).toOption.map
      (fun r => (r.2.nextByteToPush, r.2.held)) = some (1, [4, 6]) := by decide

end ByteStreamQueue

end AbcMahimahi

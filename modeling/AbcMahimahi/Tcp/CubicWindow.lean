/-
The window invariants of abccubic over whole runs: the CUBIC window stays at least two, the ABC
window at least the smaller of five and its first value, and a callback that changes either leaves
the smaller one in force. The ABC window has no guard against wrap-around, so this needs the
packets acknowledged to fit in a word on top of the first window.
-/
import AbcMahimahi.Tcp.CountAck
import AbcMahimahi.Tcp.CubicRun

namespace AbcMahimahi.Tcp.TcpAbcCubic

open Word

/-! ## One ACK -/

/-- The full segments of an ACK, and one for the ACK itself. -/
def Handled.counted (d : Handled) : Nat :=
  match d.callback with
  | .inAck flags => (d.before.ackedBytes flags).toNat / 1448 + 1
  | _ => 0

/-- Did the callback change a window? -/
def Handled.Changed (d : Handled) : Prop :=
  d.after.ca.lossCwnd ≠ d.before.ca.lossCwnd ∨ d.after.ca.cubicSndCwnd ≠ d.before.ca.cubicSndCwnd

theorem inAck_spec {s : Sock Bictcp} (flags : UInt32)
    (hfit : s.ca.lossCwnd.toNat + ((s.ackedBytes flags).toNat / 1448 + 1) < 2 ^ 32) :
    min s.ca.lossCwnd.toNat 5 ≤ (abcInAck s flags).ca.lossCwnd.toNat ∧
      (abcInAck s flags).ca.lossCwnd.toNat ≤ s.ca.lossCwnd.toNat + ((s.ackedBytes flags).toNat / 1448 + 1) ∧
      ((abcInAck s flags).ca.lossCwnd ≠ s.ca.lossCwnd ∨ (abcInAck s flags).ca.cubicSndCwnd ≠ s.ca.cubicSndCwnd →
        (abcInAck s flags).sndCwnd = min (abcInAck s flags).ca.lossCwnd (abcInAck s flags).ca.cubicSndCwnd) := by
  obtain ⟨hlow, hhigh⟩ := Abc.countAck_window (flags &&& caAckEce != 0) hfit
  unfold abcInAck
  dsimp only
  split
  · exact ⟨le_trans (min_le_min_left _ (by decide)) hlow, hhigh, fun _ => rfl⟩
  · exact ⟨min_le_left _ _, by omega, fun h => by simp at h⟩

/-! ## Runs -/

/-- The windows after a run that counted `n` from the first window `w₀`. -/
structure Windows (w₀ n : Nat) (s : Sock Bictcp) : Prop extends Inv s where
  lossLow : min w₀ 5 ≤ s.ca.lossCwnd.toNat
  lossHigh : s.ca.lossCwnd.toNat ≤ w₀ + n

/-- A callback leaves the smaller window in force if it changes one. -/
def Handled.InForce (d : Handled) : Prop :=
  d.Changed → d.after.sndCwnd = min d.after.ca.lossCwnd d.after.ca.cubicSndCwnd ∧ 1 ≤ d.after.sndCwnd.toNat

theorem step_windows (k : Kernel) {w₀ n : Nat} {s : Sock Bictcp} {e : Event} (hw : 1 ≤ w₀) (h : Windows w₀ n s)
    (he : Proper e) :
    ∃ d s', step k s e = .ok (d, s') ∧ Inv s' ∧ (w₀ + (n + d.counted) < 2 ^ 32 → Windows w₀ (n + d.counted) s' ∧ d.InForce) := by
  obtain ⟨s', hs, hinv, hkept⟩ := handle_ok k (h.ready he) he
  refine ⟨⟨e.callback, e.writes.apply s, s'⟩, s', ?_, hinv, fun hfit => ?_⟩
  · unfold step
    dsimp only
    rw [hs]; rfl
  have hlow := h.lossLow
  have hhigh := h.lossHigh
  have hstart : (e.writes.apply s).ca = s.ca := rfl
  suffices hloss : (min s.ca.lossCwnd.toNat 5 ≤ s'.ca.lossCwnd.toNat ∧
      s'.ca.lossCwnd.toNat ≤ s.ca.lossCwnd.toNat + Handled.counted ⟨e.callback, e.writes.apply s, s'⟩) ∧
      (Handled.Changed ⟨e.callback, e.writes.apply s, s'⟩ → s'.sndCwnd = min s'.ca.lossCwnd s'.ca.cubicSndCwnd) by
    obtain ⟨⟨h1, h2⟩, h3⟩ := hloss
    refine ⟨⟨hinv, by omega, by omega⟩, fun hch => ⟨h3 hch, ?_⟩⟩
    have hcubic := hinv.low
    show 1 ≤ s'.sndCwnd.toNat
    rw [h3 hch, toNat_min]
    omega
  -- only an ACK moves the accelerate-brake window
  by_cases hack : ∃ flags, e.callback = .inAck flags
  · obtain ⟨flags, hc⟩ := hack
    unfold Handled.counted at hfit ⊢
    unfold handle at hs
    rw [hc] at hfit hs ⊢
    dsimp only at hfit ⊢
    obtain ⟨h1, h2, h3⟩ := inAck_spec (s := e.writes.apply s) flags (by rw [hstart]; omega)
    cases hs
    exact ⟨⟨h1, h2⟩, h3⟩
  · have hk := hkept (fun flags hf => hack ⟨flags, hf⟩)
    exact ⟨⟨hk.lossLow, le_trans hk.lossHigh (Nat.le_add_right _ _)⟩, hk.window⟩

theorem steps_windows (k : Kernel) {w₀ : Nat} (hw : 1 ≤ w₀) : ∀ {es : List Event} {n : Nat} {s : Sock Bictcp},
    Windows w₀ n s → (∀ e ∈ es, Proper e) →
    ∃ ds s', Run.steps (step k) s es = .ok (ds, s') ∧ (w₀ + (n + (ds.map Handled.counted).sum) < 2 ^ 32 →
      Windows w₀ (n + (ds.map Handled.counted).sum) s' ∧ ∀ d ∈ ds, d.InForce)
  | [], n, s, h, _ => ⟨[], s, rfl, fun _ => ⟨by simpa using h, by simp⟩⟩
  | e :: es, n, s, h, hes => by
    obtain ⟨d, s₁, hs, hinv, hd⟩ := step_windows k hw h (hes e (List.mem_cons_self ..))
    have hes' : ∀ e ∈ es, Proper e := fun e he => hes e (List.mem_cons_of_mem _ he)
    by_cases hfit : w₀ + (n + d.counted) < 2 ^ 32
    · obtain ⟨hwin, hforce⟩ := hd hfit
      obtain ⟨ds, s', hrun, hrest⟩ := steps_windows k hw hwin hes'
      refine ⟨d :: ds, s', Run.steps_cons hs hrun, fun hall => ?_⟩
      have hsum : n + (d.counted + (ds.map Handled.counted).sum) = n + d.counted + (ds.map Handled.counted).sum := by
        omega
      rw [List.map_cons, List.sum_cons, hsum] at hall ⊢
      obtain ⟨h1, h2⟩ := hrest hall
      refine ⟨h1, fun d' hd' => ?_⟩
      rcases List.mem_cons.1 hd' with rfl | hd'
      · exact hforce
      · exact h2 d' hd'
    · obtain ⟨ds, s', hrun, -⟩ := Run.steps_total (G := fun _ e => Proper e) (fun s e => step_ok k) hinv
        (Run.along_of_forall (fun _ => hes') s₁)
      refine ⟨d :: ds, s', Run.steps_cons hs hrun, fun hall => ?_⟩
      rw [List.map_cons, List.sum_cons] at hall
      omega

/-- From the module's init on an ECN-capable socket with a first window of at least one, over every
sequence of callbacks within the kernel's bounds, while the first window, the segments and the
ACKs together fit in a word: the CUBIC window is at least two, the ABC window at least the smaller
of five and its first value, and a callback that changes either leaves the smaller one in force,
which is at least one. -/
theorem windows_keep_floor (k : Kernel) {s : Sock Bictcp} {clock : UInt32} {es : List Event}
    (hcap : s.ecnFlags &&& tcpEcnOk ≠ 0) (hw : 1 ≤ s.sndCwnd.toNat) (hthresh : 2 ≤ s.sndSsthresh.toNat)
    (hes : ∀ e ∈ es, Proper e) :
    ∃ ds s', Run.steps (step k) (bictcpInit s clock) es = .ok (ds, s') ∧
      (s.sndCwnd.toNat + (ds.map Handled.counted).sum < 2 ^ 32 →
        2 ≤ s'.ca.cubicSndCwnd.toNat ∧ min s.sndCwnd.toNat 5 ≤ s'.ca.lossCwnd.toNat ∧
          ∀ d ∈ ds, d.Changed →
            d.after.sndCwnd = min d.after.ca.lossCwnd d.after.ca.cubicSndCwnd ∧ 1 ≤ d.after.sndCwnd.toNat) := by
  have hloss : (bictcpInit s clock).ca.lossCwnd = s.sndCwnd := by
    show s.abcInit.ca.lossCwnd = s.sndCwnd
    unfold Sock.abcInit
    rw [if_pos (Or.inl hcap)]; rfl
  have hstart : Windows s.sndCwnd.toNat 0 (bictcpInit s clock) :=
    ⟨bictcpInit_inv clock hthresh, by rw [hloss]; exact min_le_left _ _, by rw [hloss]; omega⟩
  obtain ⟨ds, s', hrun, hall⟩ := steps_windows k hw hstart hes
  refine ⟨ds, s', hrun, fun hfit => ?_⟩
  obtain ⟨hwin, hforce⟩ := hall (by omega)
  exact ⟨hwin.low, by have := hwin.lossLow; omega, hforce⟩

theorem windows_keep_floor_small : ∃ ds s', Run.steps (step .hz1000) (bictcpInit (.established default 10) 0)
      [⟨{ KernelWrites.flying 10 with sndUna := 2896 }, .inAck caAckEce, fun _ => 0, 1⟩,
        ⟨.flying 4, .setState .recovery, fun _ => 5, 5⟩] = .ok (ds, s') ∧
    ((10 : UInt32).toNat + (ds.map Handled.counted).sum < 2 ^ 32 →
      2 ≤ s'.ca.cubicSndCwnd.toNat ∧ min (10 : UInt32).toNat 5 ≤ s'.ca.lossCwnd.toNat ∧
        ∀ d ∈ ds, d.Changed →
          d.after.sndCwnd = min d.after.ca.lossCwnd d.after.ca.cubicSndCwnd ∧ 1 ≤ d.after.sndCwnd.toNat) := by
  refine windows_keep_floor .hz1000 (s := .established default 10) (by decide) (by decide) (by decide) ?_
  intro e he
  fin_cases he
  · exact ⟨by decide, by simp [KernelWrites.flying], by decide, by decide, fun n hn => by cases hn⟩
  · exact ⟨by decide, by simp [KernelWrites.flying], by decide, by decide, fun n hn => by cases hn⟩

/-- What a kernel writes that has had half of `2 ^ 32` packets out, with an unlimited threshold. -/
def KernelWrites.unbounded : KernelWrites :=
  { KernelWrites.flying 10 with maxPacketsOut := 0x7fffffff, sndSsthresh := some 0xffffffff }

set_option maxRecDepth 20000 in
/-- Without the bounds a window wraps around: the ABC window of the largest first window at one ACK of
two segments, the CUBIC window at one delivery of nearly `2 ^ 32` packets, and the CUBIC window again
when smaller deliveries may run up to twice an unbounded `max_packets_out`. -/
theorem windows_lose_floor :
    (∃ ds s', Run.steps (step .hz1000) (bictcpInit (.established default 0xffffffff) 0)
        [⟨{ KernelWrites.flying 10 with sndUna := 2896 }, .inAck 0, fun _ => 0, 0⟩] = .ok (ds, s') ∧
      (ds.map Handled.counted).sum < 2 ^ 31 ∧ s'.ca.lossCwnd.toNat < min (0xffffffff : UInt32).toNat 5) ∧
    (∃ ds s', Run.steps (step .hz1000) (bictcpInit (.established default 10) 0)
        [⟨.flying 10, .congAvoid 0xfffffff6, fun _ => 0, 0⟩] = .ok (ds, s') ∧
      (ds.map Handled.counted).sum < 2 ^ 31 ∧ s'.ca.cubicSndCwnd.toNat < 2) ∧
    ∃ ds s', Run.steps (step .hz1000) (bictcpInit (.established default 10) 0)
        (List.replicate 256 ⟨.unbounded, .congAvoid 0xffffff, fun _ => 0, 0⟩ ++
          [⟨.unbounded, .congAvoid 246, fun _ => 0, 0⟩]) = .ok (ds, s') ∧
      (ds.map Handled.counted).sum < 2 ^ 31 ∧ s'.ca.cubicSndCwnd.toNat < 2 :=
  ⟨⟨_, _, rfl, by decide, by decide⟩, ⟨_, _, rfl, by decide, by decide⟩, ⟨_, _, rfl, by decide, by decide⟩⟩

end AbcMahimahi.Tcp.TcpAbcCubic

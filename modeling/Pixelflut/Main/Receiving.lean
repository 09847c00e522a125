import Pixelflut.Network.Receive
import Pixelflut.Main.Teardown

/-!
# The receive loop, beside the main thread

There are two models of `dpdk_thread`. `Network.Receive` follows its packet buffers
and what the driver does with them; `Teardown` has only the frames of a burst, and the
main thread beside it. `seen` is what the second one has of a state of the first one.

* `seen_step`: a step of the first model is one of the second model, or is not seen
  there;
* `teardown_of_receive`: so whatever `dpdk_thread` does in the first model, it does in
  the second one, and sets the same pixels in the same order.
-/

namespace Pixelflut.Receiving

open Lib.Transition Lib.Ownership
open Framebuffer Network Network.Receive
open Teardown (DpdkPc isIPv6)

/-- Where `dpdk_thread` is, when a burst is the frames in it. -/
def dpdkPc (s : Receive.State) : DpdkPc :=
  match s.pc with
  | .test => .test
  | .queue i => .queue i.toNat
  | .body i _ _ | .free i _ _ _ => .frames i.toNat (s.pc.pending.map s.content)
  | .devStop | .devClose => .closing
  | .returned => .returned

/-- The calls of `fb_set_pixel`. -/
def written (ops : List Op) : List Teardown.Event :=
  ((framesOf ops).filter isIPv6).map .fbSetPixel

/-- What the main thread has of the state, while it is in its loop. -/
def seen (s : Receive.State) : Teardown.State :=
  ⟨false, s.forceQuit, .loop, dpdkPc s, written s.ops⟩

theorem written_append (ops : List Op) (op : Op) :
    written (ops ++ [op]) = written ops ++ written [op] := by
  simp [written]

theorem written_frame (m : RteMbuf) :
    written [.frame m] = if isIPv6 m then [.fbSetPixel m] else [] := by
  cases h : isIPv6 m <;> simp [written, framesOf, h]

/-- The index of a queue does not wrap. -/
def InQueues : Receive.Pc → Prop
  | .body i _ _ | .free i _ _ _ => i < nrQueues
  | _ => True

variable {mem : Memory} {fb : Fb} {r : Lib.Drawing.Raster UInt32} {s s' : Receive.State}

theorem InQueues.step (h : InQueues s.pc) {a : Receive.Action}
    (hstep : Receive.step s a = some s') : InQueues s'.pc := by
  cases a with
  | thread mbufs =>
    cases move_of_dpdkThread hstep with
    | burst i _ hi _ _ _ => exact hi
    | draw i j m ms s₁ hpc _ _ | free i j m ms hpc =>
      rw [hpc] at h
      exact h
    | _ => trivial
  | refill m | receive m content =>
    obtain ⟨-, hs⟩ := Option.ite_none_right_eq_some.mp hstep
    cases hs
    exact h
  | resize width height answer =>
    obtain ⟨mem', fb', rfl⟩ := State.exec_eq hstep
    exact h
  | signal signum =>
    cases hstep
    exact h

/-- A step that touches no pending frame and sets no pixel. -/
theorem seen_eq (hpc : s'.pc = s.pc) (hquit : s'.forceQuit = s.forceQuit)
    (hpending : s'.pc.pending.map s'.content = s.pc.pending.map s.content)
    (hwritten : written s'.ops = written s.ops) : seen s' = seen s := by
  have hdpdk : dpdkPc s' = dpdkPc s := by
    unfold dpdkPc
    rw [hpending, hpc]
  rw [seen, seen, hquit, hdpdk, hwritten]

/-- **A step of `dpdk_thread`**, in the model of the main thread. -/
theorem seen_move {n : Nat} {mbufs : List Mbuf} (h : Inv mem fb r s) (hq : InQueues s.pc)
    (hmove : Move s mbufs s') :
    seen s' = seen s ∨ ∃ b, Teardown.step n (seen s) b = some (seen s') := by
  have hcounts := h.counts
  cases hmove with
  | quit hpc hquit | poll hpc hquit =>
    refine .inr ⟨.dpdk [], ?_⟩
    simp [Teardown.step, Teardown.dpdkThread, seen, dpdkPc, hpc, hquit]
  | burst i hpc hi hlen _ _ =>
    refine .inr ⟨.dpdk (mbufs.map s.content), ?_⟩
    have hi' : i.toNat < nrQueues.toNat := UInt16.lt_iff_toNat_lt.mp hi
    simp [Teardown.step, Teardown.dpdkThread, seen, dpdkPc, hpc, hi', hlen, Pc.pending]
  | polled i hpc hi =>
    refine .inr ⟨.dpdk [], ?_⟩
    have hi' : ¬i.toNat < nrQueues.toNat := mt UInt16.lt_iff_toNat_lt.mpr hi
    simp [Teardown.step, Teardown.dpdkThread, seen, dpdkPc, hpc, hi']
  | draw i j m ms s₁ hpc hm hexec =>
    refine .inr ⟨.dpdk [], ?_⟩
    obtain ⟨mem', fb', rfl⟩ := State.exec_eq hexec
    rw [hpc] at hcounts
    obtain ⟨hdrop, -, -⟩ := drop_cons hm hcounts.2
    rw [seen, seen, dpdkPc, dpdkPc, hpc, written_append, written_frame]
    simp only [Pc.pending, hdrop, List.map_cons, Teardown.step, Teardown.dpdkThread]
    cases isIPv6 (s.content m) <;> simp
  | drawn i j ms hpc hend =>
    refine .inr ⟨.dpdk [], ?_⟩
    rw [hpc] at hcounts hq
    have hover : ms.drop j.toNat = [] := List.drop_eq_nil_of_le (burst_over hcounts.2 hend)
    have hnext : (i + 1).toNat = i.toNat + 1 := by
      rw [UInt16.toNat_add]
      exact Nat.mod_eq_of_lt (Nat.lt_of_le_of_lt (UInt16.lt_iff_toNat_lt.mp hq) (by decide))
    simp [Teardown.step, Teardown.dpdkThread, seen, dpdkPc, hpc, Pc.pending, hover, hnext]
  | free i j m ms hpc =>
    left
    rw [hpc] at hcounts
    obtain ⟨-, hnext, -⟩ := drop_cons hcounts.1 hcounts.2
    simp [seen, dpdkPc, hpc, Pc.pending, hnext]
  | stop hpc =>
    left
    simp [seen, dpdkPc, hpc]
  | close hpc =>
    refine .inr ⟨.dpdk [], ?_⟩
    simp [Teardown.step, Teardown.dpdkThread, seen, dpdkPc, hpc]

/-- A frame that the driver receives is in none of the pending buffers. -/
theorem pending_receive (h : Inv mem fb r s) {m : Mbuf} {content : RteMbuf}
    (hok : okAction s (.receive m content) = true)
    (hstep : Receive.step s (.receive m content) = some s') :
    s'.pc.pending.map s'.content = s.pc.pending.map s.content := by
  have horder := (h.step hok hstep).in_order
  obtain ⟨-, hs⟩ := Option.ite_none_right_eq_some.mp hstep
  cases hs
  exact List.append_cancel_left (horder.trans h.in_order.symm)

theorem seen_step {n : Nat} (h : Inv mem fb r s) (hq : InQueues s.pc) {a : Receive.Action}
    (hok : okAction s a = true) (hstep : Receive.step s a = some s') :
    seen s' = seen s ∨ ∃ b, Teardown.step n (seen s) b = some (seen s') := by
  cases a with
  | thread mbufs => exact seen_move h hq (move_of_dpdkThread hstep)
  | refill m =>
    obtain ⟨-, hs⟩ := Option.ite_none_right_eq_some.mp hstep
    cases hs
    exact .inl rfl
  | receive m content =>
    have hpending := pending_receive h hok hstep
    obtain ⟨-, hs⟩ := Option.ite_none_right_eq_some.mp hstep
    cases hs
    exact .inl (seen_eq rfl rfl hpending rfl)
  | resize width height answer =>
    obtain ⟨mem', fb', rfl⟩ := State.exec_eq hstep
    refine .inl (seen_eq rfl rfl rfl ?_)
    rw [written_append]
    exact List.append_nil _
  | signal signum =>
    cases hstep
    exact .inr ⟨.signal signum, rfl⟩

/-- **One thread, two models.** Whatever `dpdk_thread` does with its buffers, while the
driver receives, the framebuffer is resized and signals come: the model of the main
thread has a run to the same place of the thread, with the same frames pending, the same
pixels set in the same order, and the main thread in its loop. -/
theorem teardown_of_receive {h₀ : Memory} {width height numaNode : UInt32}
    {owner : Owners Mbuf Owner} {content : Mbuf → RteMbuf}
    (hsmall : width.toNat * height.toNat < 2 ^ 32)
    (halloc : fbAlloc h₀ width height true true numaNode = (mem, .ok fb))
    (howner : ∀ m, owner m ≠ some .thread ∧ owner m ≠ some .filled)
    (hs : (Receive.system mem fb owner content).ReachableBy (fun s a => okAction s a = true) s)
    (n : Nat) : (Teardown.system n).Reachable (seen s) := by
  refine hs.simulate seen rfl fun c a c' hc hok hstep => ?_
  have hqueues : InQueues c.pc := by
    apply hc.invariant (P := fun c : Receive.State => InQueues c.pc)
    · exact trivial
    · exact fun _ _ _ _ h _ he => h.step he
  exact seen_step (inv_of_reachable hsmall halloc howner hc) hqueues hok hstep

end Pixelflut.Receiving

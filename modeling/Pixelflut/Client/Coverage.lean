import Pixelflut.Lib.RowMajor
import Pixelflut.Client.Mbufs

/-!
# What the DPDK client covers

`lcore_main` builds one packet after the other; where the bursts of 32 and the
ports end is no matter to its counters, which scan 801 x 601 pixels row by row
and draw a new colour at the end of each sweep.

* `sweepAt`: the counters before packet `k`, and `sweepAt_next`: one packet;
* `covers_of_run`: a run has built the packets of a scan;
* `lcoreMain_scans`: so every sweep addresses each pixel once, in its colour.
-/

namespace Pixelflut.Client.Mbufs

open Lib.Transition Lib.RowMajor

/-- The destinations of the packets built, in order. -/
def built (trace : List Event) : List Address := trace.filterMap fun e =>
  match e.use with
  | .write dst => some dst
  | _ => none

/-- What `rand()` answers after each packet, if it is called. -/
def rands (as : List Action) : List UInt32 := as.filterMap fun
  | .write rand => some rand
  | _ => none

/-- The pixels of a sweep. -/
abbrev sweepSize : Nat := 801 * 601

/-- The colour of sweep `j`. The first is drawn before the loop, each other one
after the last packet of the sweep before. -/
def sweepColour (rgb : UInt32) (rands : List UInt32) (j : Nat) : UInt32 :=
  (rgb :: rands).getD (j * sweepSize) 0

/-- The counters before packet `k`. -/
def sweepAt (rgb : UInt32) (rands : List UInt32) (k : Nat) : Sweep :=
  ⟨.ofNat (100 + k % 801), .ofNat (100 + k / 801 % 601), sweepColour rgb rands (k / sweepSize)⟩

def packet (rgb : UInt32) (rands : List UInt32) (k : Nat) : Address :=
  lcoreMainAddr (sweepAt rgb rands k).x (sweepAt rgb rands k).y (sweepAt rgb rands k).rgb

@[simp] theorem built_append (tr tr' : List Event) : built (tr ++ tr') = built tr ++ built tr' :=
  List.filterMap_append

@[simp] theorem rands_append (as as' : List Action) : rands (as ++ as') = rands as ++ rands as' :=
  List.filterMap_append

theorem built_uses (own : Lib.Ownership.Owners Mbuf Owner) (use : Use) (ms : List Mbuf)
    (h : ∀ dst, use ≠ .write dst) : built (uses own use ms) = [] := by
  rw [built, uses, List.filterMap_map, List.filterMap_eq_nil_iff]
  intro m _
  cases use with
  | write dst => exact absurd rfl (h dst)
  | _ => rfl

/-! ## The counters -/

variable {rgb : UInt32} {rs : List UInt32}

/-- Colours that have been drawn stay. -/
theorem sweepColour_append {j : Nat} (h : j * sweepSize ≤ rs.length) (rs' : List UInt32) :
    sweepColour rgb (rs ++ rs') j = sweepColour rgb rs j := by
  have hlt : j * sweepSize < (rgb :: rs).length := by
    rw [List.length_cons]
    omega
  rw [sweepColour, sweepColour, ← List.cons_append, List.getD_eq_getElem?_getD,
    List.getElem?_append_left hlt, ← List.getD_eq_getElem?_getD]

/-- The last answer is the colour of the sweep that begins behind it. -/
theorem sweepColour_drawn {j : Nat} (h : j * sweepSize = rs.length + 1) (rand : UInt32) :
    sweepColour rgb (rs ++ [rand]) j = rand := by
  simp [sweepColour, h]

theorem packet_append {k : Nat} (hk : k < rs.length) (rs' : List UInt32) :
    packet rgb (rs ++ rs') k = packet rgb rs k := by
  have hj : k / sweepSize * sweepSize ≤ rs.length := by
    have hle := Nat.div_mul_le_self k sweepSize
    omega
  simp only [packet, sweepAt, sweepColour_append hj]

theorem ofNat_gt (n m : Nat) (hn : n < 2 ^ 31) (hm : m < 2 ^ 31) :
    Int32.ofNat n > Int32.ofNat m ↔ m < n := by
  rw [gt_iff_lt, Int32.lt_iff_toInt_lt, Int32.toInt_ofNat_of_lt hn, Int32.toInt_ofNat_of_lt hm]
  omega

theorem ofNat_succ (n : Nat) : Int32.ofNat n + 1 = Int32.ofNat (n + 1) :=
  (Int32.ofNat_add n 1).symm

/-- **One packet.** The counters go on to the next pixel of the scan. -/
theorem sweepAt_next (rand : UInt32) :
    (sweepAt rgb rs rs.length).next rand = sweepAt rgb (rs ++ [rand]) (rs.length + 1) := by
  generalize hk : rs.length = k
  have hx := Nat.mod_lt k (show 0 < 801 by decide)
  have hy := Nat.mod_lt (k / 801) (show 0 < 601 by decide)
  obtain ⟨hmod, hdiv⟩ := succ_mod_div (show 0 < 801 by decide) k
  obtain ⟨hmod', hdiv'⟩ := succ_mod_div (show 0 < 601 by decide) (k / 801)
  have hxend : Int32.ofNat (100 + (k % 801 + 1)) > 900 ↔ ¬k % 801 + 1 < 801 := by
    rw [show (900 : Int32) = Int32.ofNat 900 from rfl, ofNat_gt _ _ (by omega) (by decide)]
    omega
  have hyend : Int32.ofNat (100 + (k / 801 % 601 + 1)) > 700 ↔ ¬k / 801 % 601 + 1 < 601 := by
    rw [show (700 : Int32) = Int32.ofNat 700 from rfl, ofNat_gt _ _ (by omega) (by decide)]
    omega
  have hsame : sweepColour rgb (rs ++ [rand]) (k / 801 / 601) =
      sweepColour rgb rs (k / 801 / 601) := by
    apply sweepColour_append
    rw [hk, Nat.div_div_eq_div_mul]
    exact Nat.div_mul_le_self k sweepSize
  simp only [Sweep.next, sweepAt, ofNat_succ, Nat.add_assoc, hxend, hyend,
    ← Nat.div_div_eq_div_mul, hmod, hdiv, ← hsame]
  by_cases hrow : k % 801 + 1 < 801
  · -- inside a row
    simp only [hrow, not_true_eq_false, ↓reduceIte]
  · by_cases hcol : k / 801 % 601 + 1 < 601
    · -- the last pixel of a row
      simp only [hrow, hcol, hmod', hdiv', not_true_eq_false, not_false_eq_true, ↓reduceIte]
      rfl
    · -- the last pixel of a sweep
      have hdrawn : sweepColour rgb (rs ++ [rand]) (k / 801 / 601 + 1) = rand := by
        apply sweepColour_drawn
        show (k / 801 / 601 + 1) * (801 * 601) = rs.length + 1
        clear hmod hdiv hmod' hdiv'
        omega
      simp only [hrow, hcol, hmod', hdiv', not_false_eq_true, ↓reduceIte, hdrawn]
      rfl

/-! ## Runs -/

/-- The packets built are those of a scan, and the counters stand at the next. -/
structure Covers (rgb : UInt32) (rs : List UInt32) (s : State) : Prop where
  packets : built s.trace = (List.range rs.length).map (packet rgb rs)
  sweep : s.sweep = sweepAt rgb rs rs.length

/-- A step that builds no packet. -/
theorem Covers.of_same {s s' : State} (h : Covers rgb rs s) (hsweep : s'.sweep = s.sweep)
    (htrace : built s'.trace = built s.trace) : Covers rgb (rs ++ []) s' := by
  rw [List.append_nil]
  exact ⟨htrace.trans h.packets, hsweep.trans h.sweep⟩

/-- A step that uses buffers in another way. -/
theorem Covers.of_uses {s s' : State} (h : Covers rgb rs s) {use : Use} {ms : List Mbuf}
    (hsweep : s'.sweep = s.sweep) (htrace : s'.trace = s.trace ++ uses s.owner use ms)
    (huse : ∀ dst, use ≠ .write dst) : Covers rgb (rs ++ []) s' := by
  refine h.of_same hsweep ?_
  rw [htrace, built_append, built_uses s.owner use ms huse, List.append_nil]

theorem Covers.build {s s' : State} (h : Covers rgb rs s) {rand : UInt32}
    (hsweep : s'.sweep = s.sweep.next rand)
    (htrace : built s'.trace = built s.trace ++ [lcoreMainAddr s.sweep.x s.sweep.y s.sweep.rgb]) :
    Covers rgb (rs ++ [rand]) s' := by
  constructor
  case packets =>
    have hlast : packet rgb (rs ++ [rand]) rs.length =
        lcoreMainAddr s.sweep.x s.sweep.y s.sweep.rgb := by
      have hj : rs.length / sweepSize * sweepSize ≤ rs.length :=
        Nat.div_mul_le_self rs.length sweepSize
      simp only [packet, h.sweep, sweepAt, sweepColour_append hj]
    rw [htrace, h.packets, List.length_append, List.length_singleton, List.range_succ,
      List.map_append, List.map_singleton, hlast]
    congr 1
    refine List.map_congr_left fun k hk => ?_
    exact (packet_append (List.mem_range.mp hk) [rand]).symm
  case sweep =>
    rw [hsweep, h.sweep, sweepAt_next, List.length_append, List.length_singleton]

theorem Covers.step {as : List Action} {s s' : State} {a : Action} (h : Covers rgb (rands as) s)
    (hstep : lcoreMainStep s a = some s') : Covers rgb (rands (as ++ [a])) s' := by
  rw [rands_append]
  cases move_of_lcoreMainStep hstep with
  | write port i rand hpc => exact h.build rfl (built_append _ _)
  | append port i hpc => exact h.of_uses rfl rfl (by simp)
  | txBurst port nbTx hpc hle => exact h.of_uses rfl rfl (by simp)
  | free buf hpc => exact h.of_uses rfl rfl (by simp)
  | refuse port hpc => exact h.of_same rfl rfl
  | allocate port ms hpc hms hpool => exact h.of_same rfl rfl
  | driver m hm => exact h.of_same rfl rfl

variable {mHead : Vector Mbuf BURST_SIZE} {owner : Lib.Ownership.Owners Mbuf Owner}

theorem covers_of_run {as : List Action} {s : State}
    (hrun : (lcoreMain mHead rgb owner).run (lcoreMain mHead rgb owner).init as = some s) :
    Covers rgb (rands as) s := by
  have hinit : Covers rgb (rands []) (lcoreMain mHead rgb owner).init := ⟨rfl, rfl⟩
  exact System.run_history (P := fun as s => Covers rgb (rands as) s)
    (fun as s a s' h hstep => h.step hstep) as hinit hrun

/-- What either server reads from packet `k`. -/
theorem decode_packet (rgb : UInt32) (rs : List UInt32) (r : Receiver) (k : Nat) :
    (r.decode (packet rgb rs k)).x.toNat = 100 + k % 801 ∧
      (r.decode (packet rgb rs k)).y.toNat = 100 + k / 801 % 601 ∧
      (r.decode (packet rgb rs k)).rgb =
        sweepColour rgb rs (k / sweepSize) &&& (0xFFFFFF00 : UInt32) := by
  have hx := Nat.mod_lt k (show 0 < 801 by decide)
  have hy := Nat.mod_lt (k / 801) (show 0 < 601 by decide)
  obtain ⟨hdx, hdy, hrgb⟩ := decode_encode r .dpdk (sweepAt rgb rs k).x (sweepAt rgb rs k).y
    (sweepAt rgb rs k).rgb
  have hxi : (sweepAt rgb rs k).x.toInt = (100 + k % 801 : Nat) :=
    Int32.toInt_ofNat_of_lt (by omega)
  have hyi : (sweepAt rgb rs k).y.toInt = (100 + k / 801 % 601 : Nat) :=
    Int32.toInt_ofNat_of_lt (by omega)
  rw [hxi] at hdx
  rw [hyi] at hdy
  refine ⟨?_, ?_, hrgb⟩
  · exact Int.ofNat.inj (hdx.trans (Int.emod_eq_of_lt (by omega) (by omega)))
  · exact Int.ofNat.inj (hdy.trans (Int.emod_eq_of_lt (by omega) (by omega)))

/-- The packets scan the rectangle from (100, 100) to (900, 700). -/
structure Scans (rgb : UInt32) (rs : List UInt32) (packets : List Address) : Prop where
  packet : ∀ k dst, packets[k]? = some dst →
    dst = lcoreMainAddr (.ofNat (100 + k % 801)) (.ofNat (100 + k / 801 % 601))
        (sweepColour rgb rs (k / sweepSize)) ∧
      ∀ r : Receiver, (r.decode dst).x.toNat = 100 + k % 801 ∧
        (r.decode dst).y.toNat = 100 + k / 801 % 601 ∧
        (r.decode dst).rgb = sweepColour rgb rs (k / sweepSize) &&& (0xFFFFFF00 : UInt32)
  /-- A sweep that is over has met every pixel once. -/
  once : ∀ j, (j + 1) * sweepSize ≤ packets.length →
    ∀ x y, 100 ≤ x → x ≤ 900 → 100 ≤ y → y ≤ 700 →
      ∃! k, k / sweepSize = j ∧ ∃ dst, packets[k]? = some dst ∧
        ∀ r : Receiver, (r.decode dst).x.toNat = x ∧ (r.decode dst).y.toNat = y

theorem scans_range (rgb : UInt32) (rs : List UInt32) (n : Nat) :
    Scans rgb rs ((List.range n).map (packet rgb rs)) := by
  have hget : ∀ k dst, ((List.range n).map (packet rgb rs))[k]? = some dst →
      dst = Mbufs.packet rgb rs k := by
    intro k dst hdst
    rw [List.getElem?_map] at hdst
    obtain ⟨i, hi, rfl⟩ := Option.map_eq_some_iff.mp hdst
    obtain ⟨hk, rfl⟩ := List.getElem?_eq_some_iff.mp hi
    rw [List.getElem_range]
  constructor
  case packet =>
    intro k dst hdst
    rw [hget k dst hdst]
    exact ⟨rfl, fun r => decode_packet rgb rs r k⟩
  case once =>
    intro j hj x y hx hx' hy hy'
    rw [List.length_map, List.length_range] at hj
    obtain ⟨k, ⟨hkj, hkx, hky⟩, hunique⟩ :=
      existsUnique_scan (show x - 100 < 801 by omega) (show y - 100 < 601 by omega) j
    have hlt : k < n := by
      have hdiv := Nat.lt_mul_div_succ k (show 0 < sweepSize by decide)
      rw [hkj, Nat.mul_comm] at hdiv
      omega
    refine ⟨k, ⟨hkj, Mbufs.packet rgb rs k, ?_, fun r => ?_⟩, ?_⟩
    · rw [List.getElem?_map, List.getElem?_range hlt]
      rfl
    · obtain ⟨hdx, hdy, -⟩ := decode_packet rgb rs r k
      rw [hdx, hdy, hkx, hky]
      omega
    · rintro k' ⟨hkj', dst, hdst, hread⟩
      obtain ⟨hdx, hdy, -⟩ := decode_packet rgb rs .dpdk k'
      have hxy := hread .dpdk
      rw [hget k' dst hdst, hdx, hdy] at hxy
      exact hunique k' ⟨hkj', by omega, by omega⟩

/-- **The sweep covers its rectangle exactly.** In every run packet `k` is
addressed to the `k`-th pixel of the scan, in the colour of its sweep; and a
sweep that is over has addressed each pixel once. -/
theorem lcoreMain_scans {as : List Action} {s : State}
    (hrun : (lcoreMain mHead rgb owner).run (lcoreMain mHead rgb owner).init as = some s) :
    Scans rgb (rands as) (built s.trace) := by
  rw [(covers_of_run hrun).packets]
  exact scans_range rgb (rands as) (rands as).length

theorem lcoreMain_scans_partial_burst :
    ∃ s, atStart.run atStart.init partialBurst = some s ∧ (built s.trace).length = 32 ∧
      Scans 0 (rands partialBurst) (built s.trace) := by
  have hend : (atStart.run atStart.init partialBurst).map (fun s => (built s.trace).length) =
      some 32 := rfl
  obtain ⟨s, hrun, hlen⟩ := Option.map_eq_some_iff.mp hend
  exact ⟨s, hrun, hlen, lcoreMain_scans hrun⟩

end Pixelflut.Client.Mbufs

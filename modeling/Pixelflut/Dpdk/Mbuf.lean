import Pixelflut.Lib.Batch
import Pixelflut.Lib.Loop
import Pixelflut.Lib.Store

/-!
# Packet buffers of DPDK

The fields of `struct rte_mbuf` that the life of a packet buffer depends on, and
the bytes behind `buf_addr`. Only direct buffers are modelled; `none` is a failed
assertion or an access outside an array.

* `unrolled_eq`: the unrolled loop of `rte_pktmbuf_alloc_bulk` meets every entry
  once, for every count;
* `alloc_bulk_spec`: so every buffer of a burst is ready to be filled;
* `free_restores`: `rte_pktmbuf_free` gives back every segment that nobody else uses,
  in the state that the next allocation asserts.
-/

namespace Pixelflut.Dpdk.Mbuf

open Function (update)
open Lib.Batch Lib.Loop Lib.Store

abbrev Addr := Nat

/-- A packet buffer as its allocation, its filling and its release see it. What
`dpdk_thread` reads of it is the `RteMbuf` of `Pixelflut.Network`. -/
structure RteMbuf where
  buf : Nat → UInt8
  bufLen : UInt16
  dataOff : UInt16
  refcnt : UInt16
  nbSegs : UInt16
  port : UInt16
  pktLen : UInt32
  dataLen : UInt16
  next : Option Addr

abbrev Mbufs := Addr → RteMbuf

def RTE_PKTMBUF_HEADROOM : UInt16 := 128

def MBUF_INVALID_PORT : UInt16 := 0xFFFF

/-! ## Allocation -/

def rtePktmbufResetHeadroom (m : RteMbuf) : RteMbuf :=
  { m with dataOff := min RTE_PKTMBUF_HEADROOM m.bufLen }

def rtePktmbufReset (m : RteMbuf) : RteMbuf :=
  let m := { m with next := none, pktLen := 0, nbSegs := 1, port := MBUF_INVALID_PORT }
  let m := rtePktmbufResetHeadroom m
  { m with dataLen := 0 }

/-- What `MBUF_RAW_ALLOC_CHECK` asserts. -/
structure RteMbuf.Raw (m : RteMbuf) : Prop where
  refcnt : m.refcnt = 1
  next : m.next = none
  nbSegs : m.nbSegs = 1

instance (m : RteMbuf) : Decidable m.Raw :=
  decidable_of_iff (m.refcnt = 1 ∧ m.next = none ∧ m.nbSegs = 1)
    ⟨fun h => ⟨h.1, h.2.1, h.2.2⟩, fun h => ⟨h.refcnt, h.next, h.nbSegs⟩⟩

/-- Where the unrolled loop is, and the entries of `mbufs` that it has met. -/
structure Unrolled where
  idx : UInt32
  entries : List UInt32

/-- One of the four parts of the loop body. -/
def Unrolled.one (u : Unrolled) : Unrolled := ⟨u.idx + 1, u.entries ++ [u.idx]⟩

def Unrolled.four (u : Unrolled) : Unrolled := u.one.one.one.one

/-- The loop, entered by the label of `count % 4`. -/
def unrolled (count : UInt32) : Unrolled :=
  let whileLoop := loop (fun u : Unrolled => u.idx != count) Unrolled.four count.toNat
  let u : Unrolled := ⟨0, []⟩
  match (count % 4).toNat with
  | 3 => whileLoop u.one.one.one
  | 2 => whileLoop u.one.one
  | 1 => whileLoop u.one
  | _ => whileLoop u

/-- One buffer is checked and reset. -/
def resetRaw (_ : Unit) (m : RteMbuf) : Option RteMbuf :=
  if m.Raw then some (rtePktmbufReset m) else none

/-- `rte_pktmbuf_alloc_bulk`, when the pool has filled `mbufs`. -/
def rtePktmbufAllocBulk (ms : Mbufs) (mbufs : List Addr) (count : UInt32) : Option Mbufs :=
  (unrolled count).entries.foldlM (fun ms idx =>
    (mbufs[idx.toNat]?).bind fun m => (resetRaw () (ms m)).map (update ms m)) ms

theorem Unrolled.one_iterate (u : Unrolled) (k : Nat) :
    Unrolled.one^[k] u =
      ⟨u.idx + .ofNat k, u.entries ++ (List.range k).map fun j => u.idx + .ofNat j⟩ := by
  have hkey : ∀ (u' : Unrolled) j, u'.idx = u.idx + .ofNat j →
      u'.one.idx = u.idx + .ofNat (j + 1) := by
    intro u' j h
    simp [Unrolled.one, h, UInt32.ofNat_add, UInt32.add_assoc]
  obtain ⟨hidx, hentries⟩ := iterate_collect Unrolled.idx Unrolled.entries (fun idx => [idx])
    (fun j => u.idx + .ofNat j) hkey (fun _ => rfl) u (by simp) k
  rw [← List.map_eq_flatMap] at hentries
  rw [← hidx, ← hentries]

theorem Unrolled.four_iterate (u : Unrolled) (k : Nat) :
    Unrolled.four^[k] u = Unrolled.one^[4 * k] u := by
  rw [Function.iterate_mul]
  rfl

/-- Behind the first `n % 4` parts, the loop goes on to its end by its own condition. -/
theorem whileLoop_eq {count : UInt32} {k : Nat} (hk : k = count.toNat % 4) (u : Unrolled)
    (hu : u = Unrolled.one^[k] ⟨0, []⟩) :
    loop (fun u : Unrolled => u.idx != count) Unrolled.four count.toNat u =
      Unrolled.one^[count.toNat] ⟨0, []⟩ := by
  have hlt := count.toNat_lt
  have hidx : ∀ j, (Unrolled.four^[j] u).idx = .ofNat (k + 4 * j) := by
    intro j
    simp [hu, Unrolled.four_iterate, Unrolled.one_iterate]
  have hturns : k + 4 * (count.toNat / 4) = count.toNat := by omega
  rw [loop_eq_iterate (Nat.div_le_self count.toNat 4)]
  · rw [hu, Unrolled.four_iterate, ← Function.iterate_add_apply, Nat.add_comm, hturns]
  · intro j hj
    rw [hidx, bne_iff_ne, ne_eq, ← UInt32.toNat_inj, UInt32.toNat_ofNat']
    omega
  · rw [hidx, hturns]
    simp

/-- **The unrolled loop.** For every count it ends by its condition, and has met the
entries below the count, one after another. -/
theorem unrolled_eq (count : UInt32) :
    unrolled count = ⟨count, (List.range count.toNat).map .ofNat⟩ := by
  have hone : Unrolled.one^[count.toNat] ⟨0, []⟩ =
      ⟨count, (List.range count.toNat).map .ofNat⟩ := by
    simp [Unrolled.one_iterate]
  have hmod : (count % 4).toNat = count.toNat % 4 := UInt32.toNat_mod count 4
  rw [← hone]
  have hcases : count.toNat % 4 = 0 ∨ count.toNat % 4 = 1 ∨ count.toNat % 4 = 2 ∨
      count.toNat % 4 = 3 := by omega
  rcases hcases with h | h | h | h
  all_goals
    simp only [unrolled, hmod, h]
    exact whileLoop_eq h.symm _ rfl

/-- A buffer that can be filled. -/
structure RteMbuf.Ready (m : RteMbuf) : Prop extends m.Raw where
  dataOff : m.dataOff = min RTE_PKTMBUF_HEADROOM m.bufLen
  dataLen : m.dataLen = 0
  pktLen : m.pktLen = 0

/-- **A burst is ready.** When the pool has filled the table with different raw
buffers, however many, the checks hold and each of them is reset; the bytes that the
buffers held before stay where they are, and no other buffer changes. -/
theorem alloc_bulk_spec {ms : Mbufs} {mbufs : List Addr} {count : UInt32}
    (hlen : mbufs.length = count.toNat) (hnodup : mbufs.Nodup) (hraw : ∀ m ∈ mbufs, (ms m).Raw) :
    ∃ ms', rtePktmbufAllocBulk ms mbufs count = some ms' ∧
      (∀ m ∈ mbufs, (ms' m).Ready ∧ (ms' m).buf = (ms m).buf ∧ (ms' m).bufLen = (ms m).bufLen) ∧
      ∀ m ∉ mbufs, ms' m = ms m := by
  have hcount := count.toNat_lt
  have hreset : ∀ m ∈ mbufs, resetRaw () (ms m) = some (rtePktmbufReset (ms m)) :=
    fun m hm => if_pos (hraw m hm)
  obtain ⟨ms', hfold, hin, hout⟩ := each_spec (f := resetRaw ()) hnodup fun m hm => by
    rw [hreset m hm]
    rfl
  refine ⟨ms', ?_, ?_, hout⟩
  · rw [← hfold, rtePktmbufAllocBulk, unrolled_eq, List.foldlM_map, ← hlen]
    apply foldlM_entries
    intro j hj
    exact UInt32.toNat_ofNat_of_lt' (by rw [UInt32.size]; omega)
  · intro m hm
    have he := hin m hm
    rw [hreset m hm] at he
    rw [← Option.some.inj he]
    exact ⟨⟨⟨(hraw m hm).refcnt, rfl, rfl⟩, rfl, rfl, rfl⟩, rfl, rfl⟩

/-! ## Filling -/

def rtePktmbufTailroom (m : RteMbuf) : UInt16 := m.bufLen - m.dataOff - m.dataLen

/-- `rte_pktmbuf_append` to a packet of one segment, with the offset in the buffer that
it returns; `none` is its null pointer. -/
def rtePktmbufAppend (m : RteMbuf) (len : UInt16) : Option (RteMbuf × Nat) :=
  if len > rtePktmbufTailroom m then none
  else some ({ m with dataLen := m.dataLen + len, pktLen := m.pktLen + len.toUInt32 },
    m.dataOff.toNat + m.dataLen.toNat)

/-- The offset in the buffer that `rte_pktmbuf_mtod_offset` points to. -/
def rtePktmbufMtodOffset (m : RteMbuf) (off : Nat) : Nat := m.dataOff.toNat + off

/-- The data of a packet of one segment. -/
def RteMbuf.data (m : RteMbuf) : List UInt8 := read m.buf m.dataOff.toNat m.dataLen.toNat

/-- What is appended to a buffer that is ready begins at its data. -/
theorem RteMbuf.Ready.append {m : RteMbuf} (h : m.Ready) (len : UInt16)
    (hroom : 128 + len.toNat ≤ m.bufLen.toNat) :
    m.dataOff = 128 ∧ rtePktmbufAppend m len =
      some ({ m with dataLen := len, pktLen := len.toUInt32 }, 128) := by
  have h128 : (128 : UInt16) ≤ m.bufLen := by
    rw [UInt16.le_iff_toNat_le]
    exact Nat.le_trans (Nat.le_add_right 128 _) hroom
  have hoff : m.dataOff = 128 := h.dataOff.trans (if_pos h128)
  have hlen := m.bufLen.toNat_lt
  have htail : ¬len > rtePktmbufTailroom m := by
    rw [rtePktmbufTailroom, hoff, h.dataLen, UInt16.sub_zero, gt_iff_lt, UInt16.lt_iff_toNat_lt,
      UInt16.toNat_sub_of_le _ _ h128]
    show ¬m.bufLen.toNat - 128 < len.toNat
    omega
  refine ⟨hoff, ?_⟩
  rw [rtePktmbufAppend, if_neg htail, hoff, h.dataLen, h.pktLen]
  simp

/-! ## Freeing -/

/-- A segment without its successor. -/
def unlinked (m : RteMbuf) : RteMbuf :=
  if m.next ≠ none then { m with next := none, nbSegs := 1 } else m

/-- `rte_pktmbuf_prefree_seg`: the segment, and whether it is the last reference. -/
def rtePktmbufPrefreeSeg (m : RteMbuf) : RteMbuf × Bool :=
  if m.refcnt = 1 then (unlinked m, true)
  else
    let m := { m with refcnt := m.refcnt - 1 }
    if m.refcnt = 0 then ({ unlinked m with refcnt := 1 }, true) else (m, false)

/-- `rte_pktmbuf_free_seg`, with the segments that have gone back to their pool. -/
def rtePktmbufFreeSeg (s : Mbufs × List Addr) (m : Addr) : Mbufs × List Addr :=
  let seg := rtePktmbufPrefreeSeg (s.1 m)
  (update s.1 m seg.1, if seg.2 then s.2 ++ [m] else s.2)

/-- `rte_pktmbuf_free`, for a packet of at most `fuel` segments. -/
def rtePktmbufFree : Nat → Option Addr → Mbufs × List Addr → Option (Mbufs × List Addr)
  | _, none, s => some s
  | 0, some _, _ => none
  | fuel + 1, some m, s => rtePktmbufFree fuel (s.1 m).next (rtePktmbufFreeSeg s m)

/-- The segments from `m` on, in a memory `ms`. -/
inductive Segs (ms : Mbufs) : Option Addr → List Addr → Prop where
  | nil : Segs ms none []
  | cons {m : Addr} {segs : List Addr} (h : Segs ms (ms m).next segs) : Segs ms (some m) (m :: segs)

theorem Segs.update {ms : Mbufs} {start : Option Addr} {segs : List Addr} (h : Segs ms start segs)
    {m : Addr} (hm : m ∉ segs) (seg : RteMbuf) : Segs (Function.update ms m seg) start segs := by
  induction h with
  | nil => exact .nil
  | cons h ih =>
    rw [List.mem_cons, not_or] at hm
    apply Segs.cons
    rw [Function.update_of_ne (Ne.symm hm.1)]
    exact ih hm.2

/-- The last segment of a packet counts itself only. -/
def RteMbuf.CountsLast (m : RteMbuf) : Prop := m.next = none → m.nbSegs = 1

theorem unlinked_spec {m : RteMbuf} (h : m.CountsLast) :
    (unlinked m).next = none ∧ (unlinked m).nbSegs = 1 ∧ (unlinked m).refcnt = m.refcnt := by
  unfold unlinked
  split
  · exact ⟨rfl, rfl, rfl⟩
  · next hnext =>
    rw [not_not] at hnext
    exact ⟨hnext, h hnext, rfl⟩

theorem prefree_last {m : RteMbuf} (h : m.CountsLast) (hlast : m.refcnt = 1) :
    (rtePktmbufPrefreeSeg m).2 = true ∧ (rtePktmbufPrefreeSeg m).1.Raw := by
  obtain ⟨hnext, hsegs, hrefcnt⟩ := unlinked_spec h
  rw [rtePktmbufPrefreeSeg, if_pos hlast]
  exact ⟨rfl, hrefcnt.trans hlast, hnext, hsegs⟩

theorem prefree_shared {m : RteMbuf} (hshared : m.refcnt ≠ 1) :
    rtePktmbufPrefreeSeg m = ({ m with refcnt := m.refcnt - 1 }, false) := by
  have hne : m.refcnt - 1 ≠ 0 := by
    intro h0
    have hone := congrArg (· + 1) h0
    exact hshared (by simpa using hone)
  simp [rtePktmbufPrefreeSeg, hshared, hne]

/-- What freeing leaves of the segments `segs`. -/
structure Freed (ms ms' : Mbufs) (segs : List Addr) : Prop where
  raw : ∀ m ∈ segs, (ms m).refcnt = 1 → (ms' m).Raw
  shared : ∀ m ∈ segs, (ms m).refcnt ≠ 1 → ms' m = { ms m with refcnt := (ms m).refcnt - 1 }
  same : ∀ m ∉ segs, ms' m = ms m

/-- A buffer that somebody has used before. -/
def used (next : Option Addr) (refcnt : UInt16) : RteMbuf :=
  ⟨fun _ => 0xAA, 2176, 0, refcnt, 1, 0, 60, 60, next⟩

/-- A packet of two segments, the first one shared. -/
def twoSegs : Mbufs := fun m => if m = 3 then used (some 5) 2 else used none 1

theorem twoSegs_segs : Segs twoSegs (some 3) [3, 5] := .cons (.cons .nil)

end Pixelflut.Dpdk.Mbuf

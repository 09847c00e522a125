import Mathlib.Data.Nat.Totient
import Mathlib.Data.UInt
import Pixelflut.Lib.Wrapping

/-!
# The size of a pool element

An element of a pool is a header, an object and a trailer. The trailer fills the
last cache line, and then as many lines as it takes until the number of lines has
no divisor in common with the number of memory channels and ranks.

* `getGcd_toNat`, `spreadLoop_spec`: the loops end, for every argument, and where;
* `calc_obj_size_spec`: the parts of an element, and that it is the smallest one;
* `objects_spread`: as many elements as there are channels and ranks, one behind
  another, begin on a different one each.
-/

namespace Pixelflut.Dpdk.Layout

open Lib.Wrapping

abbrev RTE_CACHE_LINE_SIZE : UInt32 := 64

abbrev RTE_MEMPOOL_ALIGN : UInt32 := RTE_CACHE_LINE_SIZE

abbrev RTE_MEMPOOL_ALIGN_MASK : UInt32 := RTE_MEMPOOL_ALIGN - 1

abbrev MEMPOOL_F_NO_SPREAD : UInt32 := 0x0001

abbrev MEMPOOL_F_NO_CACHE_ALIGN : UInt32 := 0x0002

/-- `sizeof(struct rte_mempool_objhdr)`: three pointers. -/
abbrev sizeofObjhdr : UInt32 := 24

def rteAlignFloor (val align : UInt32) : UInt32 := val &&& ~~~(align - 1)

def rteAlignCeil (val align : UInt32) : UInt32 := rteAlignFloor (val + (align - 1)) align

/-- The loop of `get_gcd`. -/
def gcdLoop (a b : UInt32) : UInt32 := if b = 0 then a else gcdLoop b (a % b)
termination_by b.toNat
decreasing_by
  rename_i hb
  rw [UInt32.toNat_mod]
  exact Nat.mod_lt _ (Nat.pos_of_ne_zero fun h => hb (UInt32.toNat_inj.mp h))

def getGcd (a b : UInt32) : UInt32 :=
  if a = 0 then b
  else if b = 0 then a
  else if a < b then gcdLoop b a
  else gcdLoop a b

theorem gcdLoop_toNat (a b : UInt32) : (gcdLoop a b).toNat = Nat.gcd a.toNat b.toNat := by
  induction a, b using gcdLoop.induct with
  | case1 a => simp [gcdLoop]
  | case2 a b hb ih =>
    rw [gcdLoop, if_neg hb, ih, UInt32.toNat_mod, Nat.gcd_comm, ← Nat.gcd_rec, Nat.gcd_comm]

theorem getGcd_toNat (a b : UInt32) : (getGcd a b).toNat = Nat.gcd a.toNat b.toNat := by
  unfold getGcd
  split
  case isTrue ha => simp [ha]
  case isFalse =>
    split
    case isTrue hb => simp [hb]
    case isFalse =>
      split
      · rw [gcdLoop_toNat, Nat.gcd_comm]
      · exact gcdLoop_toNat a b

theorem getGcd_eq_one_iff (a b : UInt32) : getGcd a b = 1 ↔ Nat.Coprime a.toNat b.toNat := by
  rw [← UInt32.toNat_inj, getGcd_toNat, Nat.Coprime]
  rfl

/-- The loop of `optimize_object_size`. It ends at 1 at the latest, when the size
has wrapped. -/
def spreadLoop (m n : UInt32) : UInt32 := if getGcd n m = 1 then n else spreadLoop m (n + 1)
termination_by (1 - n).toNat
decreasing_by
  rename_i hne
  have hn : n.toNat ≠ 1 := by
    intro h1
    obtain rfl : n = 1 := UInt32.toNat_inj.mp h1
    exact hne ((getGcd_eq_one_iff 1 m).mpr (Nat.coprime_one_left _))
  have hlt := n.toNat_lt
  rw [UInt32.toNat_sub, UInt32.toNat_sub, UInt32.toNat_add, UInt32.toNat_one]
  omega

def optimizeObjectSize (nchannel nrank objSize : UInt32) : UInt32 :=
  let nchan := if nchannel = 0 then 4 else nchannel
  let nrank := if nrank = 0 then 1 else nrank
  spreadLoop (nrank * nchan) ((objSize + RTE_MEMPOOL_ALIGN_MASK) / RTE_MEMPOOL_ALIGN) *
    RTE_MEMPOOL_ALIGN

structure Objsz where
  eltSize : UInt32
  headerSize : UInt32
  trailerSize : UInt32
  totalSize : UInt32

/-- `rte_mempool_calc_obj_size`, without the cookies of a debug build. -/
def rteMempoolCalcObjSize (nchannel nrank eltSize flags : UInt32) : Objsz :=
  let headerSize := if flags &&& MEMPOOL_F_NO_CACHE_ALIGN = 0 then
    rteAlignCeil sizeofObjhdr RTE_MEMPOOL_ALIGN else sizeofObjhdr
  let eltSize := rteAlignCeil eltSize 8
  let trailerSize := if flags &&& MEMPOOL_F_NO_CACHE_ALIGN = 0 then
    (RTE_MEMPOOL_ALIGN - ((headerSize + eltSize) &&& RTE_MEMPOOL_ALIGN_MASK)) &&&
      RTE_MEMPOOL_ALIGN_MASK else 0
  let trailerSize := if flags &&& MEMPOOL_F_NO_SPREAD = 0 then
    optimizeObjectSize nchannel nrank (headerSize + eltSize + trailerSize) - headerSize - eltSize
    else trailerSize
  ⟨eltSize, headerSize, trailerSize, headerSize + eltSize + trailerSize⟩

example : (rteMempoolCalcObjSize 0 0 2304 0).totalSize = 2368 := by decide +kernel

/-! ## Where the loops end -/

/-- Among `m` numbers in a row there is one without a common divisor. -/
theorem exists_coprime {m : Nat} (hm : 0 < m) (n : Nat) :
    ∃ k, n ≤ k ∧ k < n + m ∧ Nat.Coprime k m := by
  have hcount := Nat.filter_coprime_Ico_eq_totient m n
  have hpos : 0 < (Finset.filter (m.Coprime) (Finset.Ico n (n + m))).card := by
    rw [hcount]
    exact Nat.totient_pos.mpr hm
  obtain ⟨k, hk⟩ := Finset.card_pos.mp hpos
  rw [Finset.mem_filter, Finset.mem_Ico] at hk
  exact ⟨k, hk.1.1, hk.1.2, hk.2.symm⟩

/-- **The first size that spreads**, if there is one before the size wraps. -/
theorem spreadLoop_spec {m n : UInt32}
    (h : ∃ k, n.toNat ≤ k ∧ k < 2 ^ 32 ∧ Nat.Coprime k m.toNat) :
    n.toNat ≤ (spreadLoop m n).toNat ∧ Nat.Coprime (spreadLoop m n).toNat m.toNat ∧
      ∀ k, n.toNat ≤ k → Nat.Coprime k m.toNat → (spreadLoop m n).toNat ≤ k := by
  induction n using spreadLoop.induct m with
  | case1 n hone =>
    rw [spreadLoop, if_pos hone]
    exact ⟨Nat.le_refl _, (getGcd_eq_one_iff n m).mp hone, fun k hk _ => hk⟩
  | case2 n hne ih =>
    have hnot : ¬Nat.Coprime n.toNat m.toNat := fun hc => hne ((getGcd_eq_one_iff n m).mpr hc)
    have hlater : ∀ k, n.toNat ≤ k → Nat.Coprime k m.toNat → n.toNat + 1 ≤ k := by
      intro k hk hc
      refine Nat.lt_of_le_of_ne hk ?_
      rintro rfl
      exact hnot hc
    obtain ⟨k, hk, hlt, hc⟩ := h
    have hnext : (n + 1).toNat = n.toNat + 1 := by
      have hk' := hlater k hk hc
      rw [UInt32.toNat_add, UInt32.toNat_one]
      omega
    rw [hnext] at ih
    obtain ⟨hle, hcoprime, hfirst⟩ := ih ⟨k, hlater k hk hc, hlt, hc⟩
    rw [spreadLoop, if_neg hne]
    exact ⟨by omega, hcoprime, fun k hk hc => hfirst k (hlater k hk hc) hc⟩

/-! ## Alignment -/

theorem rteAlignCeil_toNat {k : Nat} (hk : k ≤ 31) {v align : UInt32} (halign : align.toNat = 2 ^ k)
    (hroom : v.toNat + (2 ^ k - 1) < 2 ^ 32) :
    (rteAlignCeil v align).toNat = (v.toNat + (2 ^ k - 1)) / 2 ^ k * 2 ^ k := by
  have hpos := Nat.two_pow_pos k
  have hmask : (align - 1).toNat = 2 ^ k - 1 := by
    have hle : 1 ≤ align := by
      rw [UInt32.le_iff_toNat_le, halign]
      exact hpos
    rw [UInt32.toNat_sub_of_le _ _ hle, halign, UInt32.toNat_one]
  rw [rteAlignCeil, rteAlignFloor, and_not_mask (Nat.le_succ_of_le hk) hmask, UInt32.toNat_add,
    hmask, Nat.mod_eq_of_lt hroom]

/-- What is missing in the last cache line. -/
theorem line_padding_toNat (v : UInt32) :
    ((RTE_MEMPOOL_ALIGN - (v &&& RTE_MEMPOOL_ALIGN_MASK)) &&& RTE_MEMPOOL_ALIGN_MASK).toNat =
      (64 - v.toNat % 64) % 64 := by
  have hand : ∀ w : UInt32, (w &&& RTE_MEMPOOL_ALIGN_MASK).toNat = w.toNat % 64 := by
    intro w
    rw [UInt32.toNat_and]
    exact Nat.and_two_pow_sub_one_eq_mod w.toNat 6
  have hle : v &&& RTE_MEMPOOL_ALIGN_MASK ≤ RTE_MEMPOOL_ALIGN := by
    rw [UInt32.le_iff_toNat_le, hand]
    exact Nat.le_of_lt (Nat.mod_lt _ (by decide))
  rw [hand, UInt32.toNat_sub_of_le _ _ hle, hand]
  rfl

/-- With it the line is full. -/
theorem padded_toNat {v : UInt32} (hroom : v.toNat + 63 < 2 ^ 32) :
    (v + ((RTE_MEMPOOL_ALIGN - (v &&& RTE_MEMPOOL_ALIGN_MASK)) &&& RTE_MEMPOOL_ALIGN_MASK)).toNat =
      (v.toNat + 63) / 64 * 64 := by
  rw [UInt32.toNat_add, line_padding_toNat, Nat.mod_eq_of_lt (by omega)]
  omega

/-! ## Elements -/

/-- Channels times ranks, by default four times one. -/
def places (nchannel nrank : UInt32) : UInt32 :=
  (if nrank = 0 then 1 else nrank) * (if nchannel = 0 then 4 else nchannel)

/-- The parts of an element for objects of `eltSize` bytes. -/
structure Spread (places eltSize : Nat) (sz : Objsz) : Prop where
  header : sz.headerSize = 64
  elt : eltSize ≤ sz.eltSize.toNat ∧ sz.eltSize.toNat < eltSize + 8 ∧ 8 ∣ sz.eltSize.toNat
  total : sz.totalSize.toNat = 64 + sz.eltSize.toNat + sz.trailerSize.toNat
  lines : 64 ∣ sz.totalSize.toNat
  coprime : Nat.Coprime (sz.totalSize.toNat / 64) places
  least : ∀ k, 64 + sz.eltSize.toNat ≤ 64 * k → Nat.Coprime k places → sz.totalSize.toNat ≤ 64 * k

theorem optimizeObjectSize_spec {nchannel nrank : UInt32} (objSize : UInt32)
    (hplaces : places nchannel nrank ≠ 0)
    (hroom : objSize.toNat + 63 + 64 * (places nchannel nrank).toNat < 2 ^ 32) :
    ∃ lines, (optimizeObjectSize nchannel nrank objSize).toNat = 64 * lines ∧
      objSize.toNat ≤ 64 * lines ∧ Nat.Coprime lines (places nchannel nrank).toNat ∧
      ∀ k, objSize.toNat ≤ 64 * k → Nat.Coprime k (places nchannel nrank).toNat → lines ≤ k := by
  have hpos : 0 < (places nchannel nrank).toNat :=
    Nat.pos_of_ne_zero fun h => hplaces (UInt32.toNat_inj.mp h)
  obtain ⟨n, hn⟩ : ∃ n, n = (objSize + RTE_MEMPOOL_ALIGN_MASK) / RTE_MEMPOOL_ALIGN := ⟨_, rfl⟩
  have hfull : n.toNat = (objSize.toNat + 63) / 64 := by
    rw [hn, UInt32.toNat_div, UInt32.toNat_add]
    exact congrArg (· / 64) (Nat.mod_eq_of_lt (show objSize.toNat + 63 < 2 ^ 32 by omega))
  obtain ⟨k, hk, hlt, hc⟩ := exists_coprime hpos n.toNat
  obtain ⟨hle, hcoprime, hfirst⟩ := spreadLoop_spec ⟨k, hk, by omega, hc⟩
  have hbound := hfirst k hk hc
  refine ⟨(spreadLoop (places nchannel nrank) n).toNat, ?_, by omega, hcoprime, ?_⟩
  · have hsize : optimizeObjectSize nchannel nrank objSize =
        spreadLoop (places nchannel nrank) n * RTE_MEMPOOL_ALIGN := by
      rw [hn]
      rfl
    rw [hsize, UInt32.toNat_mul, Nat.mul_comm]
    exact Nat.mod_eq_of_lt (show 64 * _ < 2 ^ 32 by omega)
  · exact fun k hk hc => hfirst k (by omega) hc

/-- **The parts of an element.** -/
theorem calc_obj_size_spec {nchannel nrank eltSize flags : UInt32}
    (hplaces : places nchannel nrank ≠ 0) (halign : flags &&& MEMPOOL_F_NO_CACHE_ALIGN = 0)
    (hspread : flags &&& MEMPOOL_F_NO_SPREAD = 0)
    (hroom : eltSize.toNat + 64 * (places nchannel nrank).toNat + 256 ≤ 2 ^ 32) :
    Spread (places nchannel nrank).toNat eltSize.toNat
      (rteMempoolCalcObjSize nchannel nrank eltSize flags) := by
  obtain ⟨elt, helt⟩ : ∃ elt, elt = rteAlignCeil eltSize 8 := ⟨_, rfl⟩
  obtain ⟨pad, hpad⟩ : ∃ pad,
      pad = (RTE_MEMPOOL_ALIGN - ((64 + elt) &&& RTE_MEMPOOL_ALIGN_MASK)) &&&
        RTE_MEMPOOL_ALIGN_MASK := ⟨_, rfl⟩
  have hsz : rteMempoolCalcObjSize nchannel nrank eltSize flags =
      let trailer := optimizeObjectSize nchannel nrank (64 + elt + pad) - 64 - elt
      ⟨elt, 64, trailer, 64 + elt + trailer⟩ := by
    have hheader : rteAlignCeil sizeofObjhdr RTE_MEMPOOL_ALIGN = 64 := by decide
    rw [rteMempoolCalcObjSize, if_pos halign, if_pos halign, if_pos hspread, hheader, ← helt,
      ← hpad]
  have hE : elt.toNat = (eltSize.toNat + 7) / 8 * 8 := by
    rw [helt]
    exact rteAlignCeil_toNat (k := 3) (by decide) rfl (by omega)
  have h64 : (64 : UInt32).toNat = 64 := rfl
  have hfirst : (64 + elt).toNat = 64 + elt.toNat := by
    rw [UInt32.toNat_add, h64]
    omega
  have hsum : (64 + elt + pad).toNat = (64 + elt.toNat + 63) / 64 * 64 := by
    rw [hpad, padded_toNat (by omega), hfirst]
  obtain ⟨lines, hsize, hle, hcoprime, hleast⟩ :=
    optimizeObjectSize_spec (64 + elt + pad) hplaces (by omega)
  have hlt := (optimizeObjectSize nchannel nrank (64 + elt + pad)).toNat_lt
  obtain ⟨size, hsizeEq⟩ : ∃ size, size = optimizeObjectSize nchannel nrank (64 + elt + pad) :=
    ⟨_, rfl⟩
  rw [← hsizeEq] at hsize hlt hsz
  rw [hsz]
  dsimp only
  have hrest : (size - 64).toNat = size.toNat - 64 :=
    UInt32.toNat_sub_of_le _ _ (by rw [UInt32.le_iff_toNat_le, h64]; omega)
  have htrailer : (size - 64 - elt).toNat = size.toNat - 64 - elt.toNat := by
    rw [UInt32.toNat_sub_of_le _ _ (by rw [UInt32.le_iff_toNat_le, hrest]; omega), hrest]
  have htotal : (64 + elt + (size - 64 - elt)).toNat = 64 * lines := by
    rw [UInt32.toNat_add, hfirst, htrailer]
    omega
  constructor
  case header => rfl
  case elt =>
    dsimp only
    omega
  case total =>
    dsimp only
    omega
  case lines => exact htotal ▸ Dvd.intro lines rfl
  case coprime =>
    dsimp only
    rwa [htotal, Nat.mul_div_cancel_left _ (by decide)]
  case least =>
    intro k hk hc
    dsimp only at hk ⊢
    have hfill : (64 + elt + pad).toNat ≤ 64 * k := by omega
    rw [htotal]
    exact Nat.mul_le_mul_left 64 (hleast k hfill hc)

/-- A stride without a common divisor meets every place. -/
theorem existsUnique_place {m stride : Nat} (hm : 0 < m) (h : Nat.Coprime stride m) (start : Nat)
    {p : Nat} (hp : p < m) : ∃! i, i < m ∧ (start + i * stride) % m = p := by
  have hinj : Function.Injective fun i : Fin m =>
      (⟨(start + i * stride) % m, Nat.mod_lt _ hm⟩ : Fin m) := by
    intro i j hij
    have hmod : start + i * stride ≡ start + j * stride [MOD m] := congrArg Fin.val hij
    have hcancel := Nat.ModEq.cancel_right_of_coprime h.symm (Nat.ModEq.add_left_cancel' start hmod)
    exact Fin.ext (Nat.ModEq.eq_of_lt_of_lt hcancel i.isLt j.isLt)
  obtain ⟨i, hi⟩ := Finite.surjective_of_injective hinj ⟨p, hp⟩
  refine ⟨i, ⟨i.isLt, congrArg Fin.val hi⟩, ?_⟩
  rintro j ⟨hj, heq⟩
  have hsame : (⟨j, hj⟩ : Fin m) = i := hinj (hi ▸ Fin.ext heq)
  exact congrArg Fin.val hsame

/-- **The elements are spread.** Of as many elements in a row as there are channels
times ranks, wherever the row begins, exactly one begins on each of them. -/
theorem objects_spread {nchannel nrank eltSize flags : UInt32}
    (hplaces : places nchannel nrank ≠ 0) (halign : flags &&& MEMPOOL_F_NO_CACHE_ALIGN = 0)
    (hspread : flags &&& MEMPOOL_F_NO_SPREAD = 0)
    (hroom : eltSize.toNat + 64 * (places nchannel nrank).toNat + 256 ≤ 2 ^ 32) :
    let sz := rteMempoolCalcObjSize nchannel nrank eltSize flags
    let m := (places nchannel nrank).toNat
    Spread m eltSize.toNat sz ∧
      ∀ base, ∀ p < m, ∃! i, i < m ∧ (base + i * sz.totalSize.toNat) / 64 % m = p := by
  intro sz m
  have hspec : Spread m eltSize.toNat sz := calc_obj_size_spec hplaces halign hspread hroom
  refine ⟨hspec, fun base p hp => ?_⟩
  have hline : ∀ i, (base + i * sz.totalSize.toNat) / 64 =
      base / 64 + i * (sz.totalSize.toNat / 64) := by
    intro i
    obtain ⟨lines, hlines⟩ := hspec.lines
    rw [hlines, Nat.mul_div_cancel_left _ (by decide), Nat.mul_left_comm,
      Nat.add_mul_div_left _ _ (by decide)]
  simp only [hline]
  exact existsUnique_place (Nat.zero_lt_of_lt hp) hspec.coprime _ hp

/-- The elements of a pool of packet buffers, on four channels. -/
theorem objects_spread_mbufs :
    Spread 4 2304 (rteMempoolCalcObjSize 0 0 2304 0) ∧
      ∀ base, ∀ p < 4, ∃! i, i < 4 ∧
        (base + i * (rteMempoolCalcObjSize 0 0 2304 0).totalSize.toNat) / 64 % 4 = p :=
  @objects_spread 0 0 2304 0 (by decide) rfl rfl (by decide)

end Pixelflut.Dpdk.Layout

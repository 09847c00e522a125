import Mathlib.Tactic.Abel
import Pixelflut.Lib.Accounts
import Pixelflut.Dpdk.RingCalls
import Pixelflut.Dpdk.RingProgress
import Pixelflut.Dpdk.Mempool

/-!
# No packet buffer is lost

What every thread holds, what its cache keeps and what it has offered to the ring,
together with what the ring keeps, is what the ring was filled with.

* `Inv.step`: every step of every thread keeps the invariant;
* `mempool_conserved`: the objects of the pool, in every state of every run;
* `mempool_never_stuck`: every thread has a next step, and no array is accessed past
  its end.
-/

namespace Pixelflut.Dpdk.Mempool

open Function (update)
open Lib.Transition Lib.Accounts
open Pixelflut.Dpdk.Ring (RteRing Call Side Behavior ringStep okRing Uses)

variable {τ α : Type}

/-! ## The invariant -/

/-- The side of the ring that a thread uses, if it uses one. -/
def Pc.side : Pc α → Side
  | .getBackfill _ | .getRing _ => .cons
  | _ => .prod

/-- The objects that a cache keeps, as far as its thread has got. -/
def State.inCache (u : Setup τ) (s : State τ α) (t : τ) : List α :=
  match s.pc t with
  | .putFlush => (s.localCache t).objs.take u.pool.cacheSize.toNat
  | .cacheFlush => []
  | _ => (s.localCache t).objs.take (s.localCache t).len.toNat

/-- What is with a thread: in its cache, with its caller, or on the way to the ring
or from it. -/
def State.own (u : Setup τ) (s : State τ α) (t : τ) : Multiset α :=
  ↑(s.inCache u t) + ↑(s.held t) +
    (↑(s.ring.pc t).offered + ↑((s.ring.pc t).result (s.pc t).side))

section
variable (u : Setup τ)

def flushthresh : Nat := (calcCacheFlushthresh u.pool.cacheSize).toNat

/-- A cache between two calls. -/
def Resting (c : RteMempoolCache α) : Prop :=
  c.len.toNat < flushthresh u ∨ c.len.toNat ≤ u.pool.cacheSize.toNat

/-- How a thread uses the ring, and what it needs to know of its cache. -/
def State.Link (s : State τ α) (t : τ) : Prop :=
  let cache := s.localCache t
  match s.pc t with
  | .ready => (∃ n objs, s.ring.pc t = .idle n objs) ∧ Resting u cache
  | .putFlush => Uses .prod (cache.len.toNat - u.pool.cacheSize.toNat) (s.ring.pc t) ∧
    u.pool.cacheSize.toNat ≤ cache.len.toNat ∧ cache.len.toNat ≤ 1536
  | .putRing => (∃ count, Uses .prod count (s.ring.pc t)) ∧ Resting u cache
  | .cacheFlush => Uses .prod cache.len.toNat (s.ring.pc t) ∧ Resting u cache
  | .getBackfill objTable =>
    Uses .cons (objTable.length + u.pool.cacheSize.toNat - cache.len.toNat) (s.ring.pc t) ∧
      cache.len.toNat < objTable.length ∧ objTable.length < u.pool.cacheSize.toNat
  | .getRing objTable => Uses .cons objTable.length (s.ring.pc t) ∧ Resting u cache

structure Inv (pool : Multiset α) [Fintype τ] (s : State τ α) : Prop where
  ring : Ring.Inv u.ring s.ring
  objs_length : ∀ t, (s.localCache t).objs.length = 1536
  link : ∀ t, s.Link u t
  total : total ↑s.ring.inRing (s.own u) = pool

end

/-! ## One thread moves -/

/-- The thread `t` has not moved. -/
structure Same (s s' : State τ α) (t : τ) : Prop where
  pc : s'.pc t = s.pc t
  cache : s'.localCache t = s.localCache t
  held : s'.held t = s.held t
  ring : s'.ring.pc t = s.ring.pc t

variable {u : Setup τ} {s s' : State τ α}

theorem Same.own {t : τ} (h : Same s s' t) : s'.own u t = s.own u t := by
  rw [State.own, State.own, State.inCache, State.inCache, h.pc, h.cache, h.held, h.ring]

theorem Same.link {t : τ} (h : Same s s' t) (hl : s.Link u t) : s'.Link u t := by
  unfold State.Link at hl ⊢
  rw [h.pc, h.cache, h.ring]
  exact hl

theorem Same.refl (s : State τ α) (t : τ) : Same s s t := ⟨rfl, rfl, rfl, rfl⟩

theorem Same.trans {s'' : State τ α} {t : τ} (h : Same s s' t) (h' : Same s' s'' t) :
    Same s s'' t where
  pc := h'.pc.trans h.pc
  cache := h'.cache.trans h.cache
  held := h'.held.trans h.held
  ring := h'.ring.trans h.ring

/-- Every thread that is in a call of the pool uses the ring for one call. -/
theorem State.Link.uses {t : τ} (h : s.Link u t) (hpc : s.pc t ≠ .ready) :
    ∃ count, Uses (s.pc t).side count (s.ring.pc t) ∧
      ∀ ring : Ring.State τ α, Uses (s.pc t).side count (ring.pc t) →
        ({ s with ring } : State τ α).Link u t := by
  unfold State.Link at h ⊢
  dsimp only at h ⊢
  cases hp : s.pc t with
  | ready => exact absurd hp hpc
  | putFlush =>
    rw [hp] at h
    exact ⟨_, h.1, fun _ hu => ⟨hu, h.2⟩⟩
  | putRing =>
    rw [hp] at h
    obtain ⟨count, hu⟩ := h.1
    exact ⟨count, hu, fun _ hu => ⟨⟨count, hu⟩, h.2⟩⟩
  | cacheFlush =>
    rw [hp] at h
    exact ⟨_, h.1, fun _ hu => ⟨hu, h.2⟩⟩
  | getBackfill objTable =>
    rw [hp] at h
    exact ⟨_, h.1, fun _ hu => ⟨hu, h.2⟩⟩
  | getRing objTable =>
    rw [hp] at h
    exact ⟨_, h.1, fun _ hu => ⟨hu, h.2⟩⟩

theorem Inv.of_local [Fintype τ] [DecidableEq τ] {pool : Multiset α} (h : Inv u pool s) (t : τ)
    (hring : Ring.Inv u.ring s'.ring) (hother : ∀ t', t' ≠ t → Same s s' t')
    (hobjs : (s'.localCache t).objs.length = 1536) (hlink : s'.Link u t)
    (htotal : (s'.ring.inRing : Multiset α) + s'.own u t = s.ring.inRing + s.own u t) :
    Inv u pool s' where
  ring := hring
  objs_length t' := by
    by_cases hne : t' = t
    · rw [hne]
      exact hobjs
    · rw [(hother t' hne).cache]
      exact h.objs_length t'
  link t' := by
    by_cases hne : t' = t
    · rw [hne]
      exact hlink
    · exact (hother t' hne).link (h.link t')
  total := (total_of_local t (fun t' hne => (hother t' hne).own) htotal).trans h.total

/-! ## Caches -/

theorem flushthresh_eq (u : Setup τ) : flushthresh u = u.pool.cacheSize.toNat * 3 / 2 := by
  have hle : u.pool.cacheSize.toNat ≤ 512 := UInt32.le_iff_toNat_le.mp u.pool.cacheSize_le
  unfold flushthresh calcCacheFlushthresh
  rw [UInt32.toNat_ofNat', Nat.mod_eq_of_lt (by omega)]

/-- A cache between two calls has room for as many objects as one put may add. -/
theorem Resting.len_le {c : RteMempoolCache α} (h : Resting u c) : c.len.toNat ≤ 768 := by
  have hle : u.pool.cacheSize.toNat ≤ 512 := UInt32.le_iff_toNat_le.mp u.pool.cacheSize_le
  rcases h with hlt | hle'
  · rw [flushthresh_eq] at hlt
    omega
  · omega

theorem add_spec {c c' : RteMempoolCache α} {objs : List α} (hlen : c.objs.length = 1536)
    (h : c.add objs = some c') : c'.len.toNat = c.len.toNat + objs.length ∧
      c'.objs.length = 1536 ∧ c'.len.toNat ≤ 1536 ∧
      c'.objs.take c'.len.toNat = c.objs.take c.len.toNat ++ objs := by
  unfold RteMempoolCache.add at h
  split at h
  · next hle =>
    cases h
    have hsum : (c.len + .ofNat objs.length).toNat = c.len.toNat + objs.length := by
      rw [UInt32.toNat_add, UInt32.toNat_ofNat']
      omega
    have htake : (c.objs.take c.len.toNat).length = c.len.toNat := by
      rw [List.length_take]
      omega
    refine ⟨hsum, ?_, by dsimp only; omega, ?_⟩
    · rw [List.length_append, List.length_append, htake, List.length_drop]
      omega
    · dsimp only
      rw [hsum, List.take_left' (by rw [List.length_append, htake])]
  · cases h

theorem add_isSome {c : RteMempoolCache α} {objs : List α}
    (h : c.len.toNat + objs.length ≤ c.objs.length) : (c.add objs).isSome := by
  unfold RteMempoolCache.add
  rw [if_pos h]
  rfl

/-- The response and what is left are what was in the cache. -/
theorem fillFrom_accounts {objs : List α} {n len : Nat} (hn : n ≤ len) (hlen : len ≤ objs.length) :
    (objs.take (len - n) : Multiset α) + fillFrom objs n (len - 1) = objs.take len := by
  induction n generalizing len with
  | zero => exact add_zero _
  | succ n ih =>
    have hlast : objs.take len = objs.take (len - 1) ++ [objs[len - 1]] := by
      rw [← List.take_succ_eq_append_getElem (by omega), Nat.sub_add_cancel (by omega)]
    have hrest := @ih (len - 1) (by omega) (by omega)
    rw [fillFrom, List.getElem?_eq_getElem (by omega), hlast, Option.toList_some,
      ← Multiset.coe_add, ← Multiset.coe_add, ← hrest, show len - (n + 1) = len - 1 - n by omega,
      add_comm (([objs[len - 1]] : List α) : Multiset α), add_assoc]

theorem taken_len {c : RteMempoolCache α} {n : Nat} (hn : n ≤ c.len.toNat) :
    (c.len - .ofNat n).toNat = c.len.toNat - n := by
  have := c.len.toNat_lt
  rw [UInt32.toNat_sub_of_le]
  · rw [UInt32.toNat_ofNat', Nat.mod_eq_of_lt (by omega)]
  · rw [UInt32.le_iff_toNat_le, UInt32.toNat_ofNat', Nat.mod_eq_of_lt (by omega)]
    exact hn

/-- A cache after `n` objects have been taken from it. -/
theorem taken_accounts {c : RteMempoolCache α} {n : Nat} (hn : n ≤ c.len.toNat)
    (hlen : c.len.toNat ≤ c.objs.length) :
    (c.objs.take (c.len - .ofNat n).toNat : Multiset α) + fillFrom c.objs n (c.len - 1).toNat =
      c.objs.take c.len.toNat := by
  rw [taken_len hn]
  cases n with
  | zero => exact add_zero _
  | succ n =>
    have hlast : (c.len - 1).toNat = c.len.toNat - 1 := taken_len (n := 1) (by omega)
    rw [hlast]
    exact fillFrom_accounts hn hlen

theorem State.Link.len_le {t : τ} (h : s.Link u t) : (s.localCache t).len.toNat ≤ 1536 := by
  have hmax : u.pool.cacheSize.toNat ≤ 512 := UInt32.le_iff_toNat_le.mp u.pool.cacheSize_le
  unfold State.Link at h
  dsimp only at h
  split at h
  · exact Nat.le_trans h.2.len_le (by omega)
  · exact h.2.2
  · exact Nat.le_trans h.2.len_le (by omega)
  · exact Nat.le_trans h.2.len_le (by omega)
  · omega
  · exact Nat.le_trans h.2.len_le (by omega)

/-- A request that the cache cannot satisfy is backfilled with fewer than `2 * 512`
objects. -/
theorem backfill_req {c : RteMempoolCache α} {n : Nat} (hn : n < 2 ^ 32)
    (hsmall : ¬UInt32.ofNat n ≥ u.pool.cacheSize) (hless : c.len < .ofNat n) :
    n < u.pool.cacheSize.toNat ∧ c.len.toNat < n ∧
      (UInt32.ofNat n + (u.pool.cacheSize - c.len)).toNat =
        n + u.pool.cacheSize.toNat - c.len.toNat := by
  have hmax : u.pool.cacheSize.toNat ≤ 512 := UInt32.le_iff_toNat_le.mp u.pool.cacheSize_le
  have hnat : (UInt32.ofNat n).toNat = n := by rw [UInt32.toNat_ofNat', Nat.mod_eq_of_lt hn]
  have hlt := Nat.lt_of_not_le fun hle => hsmall (UInt32.le_iff_toNat_le.mpr hle)
  rw [UInt32.lt_iff_toNat_lt, hnat] at hless
  rw [hnat] at hlt
  refine ⟨hlt, hless, ?_⟩
  rw [UInt32.toNat_add, hnat, UInt32.toNat_sub_of_le _ _ (UInt32.le_iff_toNat_le.mpr (by omega))]
  omega

/-- The accounts of a thread that is in no call. -/
theorem own_of_ready {t : τ} (hpc : s.pc t = .ready) (hring : ∃ n objs, s.ring.pc t = .idle n objs) :
    s.own u t = ↑((s.localCache t).objs.take (s.localCache t).len.toNat) + ↑(s.held t) := by
  obtain ⟨n, objs, hidle⟩ := hring
  simp [State.own, State.inCache, hpc, hidle, Pc.side]

/-- The accounts of a thread whose call has returned. -/
theorem own_of_idle {t : τ} {n : UInt32} {objs : List α} (hring : s.ring.pc t = .idle n objs) :
    s.own u t = ↑(s.inCache u t) + ↑(s.held t) +
      ↑(if (s.pc t).side = .cons ∧ n ≠ 0 then objs else []) := by
  rw [State.own, hring, Ring.Pc.offered_idle, Multiset.coe_nil, zero_add]
  rfl

/-- There is always room in the ring for what a thread wants to put into it. -/
theorem Inv.room [Fintype τ] {pool : Multiset α} (h : Inv u pool s)
    (hpool : pool.card ≤ u.ring.capacity.toNat) (t : τ) :
    s.ring.inRing.length + (s.ring.pc t).offered.length ≤ u.ring.capacity.toNat := by
  have hle : (s.ring.inRing : Multiset α) + ↑(s.ring.pc t).offered ≤ pool := by
    calc
      (s.ring.inRing : Multiset α) + ↑(s.ring.pc t).offered ≤ ↑s.ring.inRing + s.own u t := by
        have hown : ↑(s.ring.pc t).offered ≤ s.own u t :=
          le_trans (Multiset.le_add_right _ _) (Multiset.le_add_left _ _)
        exact add_le_add_right hown _
      _ ≤ Lib.Accounts.total ↑s.ring.inRing (s.own u) := own_le_total _ _ t
      _ = pool := h.total
  have := Multiset.card_le_card hle
  rw [Multiset.card_add, Multiset.coe_card, Multiset.coe_card] at this
  omega

/-- A thread is in no call any more, and the ring has not changed. -/
theorem Inv.returns [Fintype τ] [DecidableEq τ] {pool : Multiset α} (h : Inv u pool s) {t : τ}
    (hidle : ∃ n objs, s.ring.pc t = .idle n objs) (hring : s'.ring = s.ring)
    (hother : ∀ t', t' ≠ t → Same s s' t') (hpc : s'.pc t = .ready)
    (hobjs : (s'.localCache t).objs.length = 1536) (hrest : Resting u (s'.localCache t))
    (haccounts : ↑((s'.localCache t).objs.take (s'.localCache t).len.toNat) + ↑(s'.held t) =
      s.own u t) : Inv u pool s' := by
  have hidle' : ∃ n objs, s'.ring.pc t = .idle n objs := by
    rw [hring]
    exact hidle
  apply h.of_local t _ hother hobjs
  · simp only [State.Link, hpc]
    exact ⟨hidle', hrest⟩
  · rw [own_of_ready hpc hidle', haccounts, hring]
  · rw [hring]
    exact h.ring

/-! ## The ring calls -/

variable [DecidableEq τ]

/-- What has changed when a thread has begun a call of the ring. -/
structure Called (s s' : State τ α) (t : τ) (side : Side) (objs : List α) (pc : Pc α) : Prop where
  ring : ∃ h, s'.ring = s.ring.goto t (.readHead (bulk side objs h))
  step : ∃ h, ringStep s.ring (.call t (bulk side objs h)) = some s'.ring
  pc : s'.pc = update s.pc t pc
  cache : s'.localCache = s.localCache
  held : s'.held = s.held

theorem ringCall_called {t : τ} {side : Side} {objs : List α} {pc : Pc α}
    (h : s.ringCall t side objs pc = some s') : Called s s' t side objs pc := by
  unfold State.ringCall at h
  split at h
  · next hlt =>
    obtain ⟨ring, hring, rfl⟩ := Option.map_eq_some_iff.mp h
    refine ⟨⟨hlt, ?_⟩, ⟨hlt, hring⟩, rfl, rfl, rfl⟩
    cases Ring.move_of_ringStep hring
    rfl
  · cases h

theorem ringCall_isSome {t : τ} {objs : List α} (side : Side) (pc : Pc α)
    (hidle : ∃ n objs, s.ring.pc t = .idle n objs) (hlt : objs.length < 2 ^ 32) :
    (s.ringCall t side objs pc).isSome := by
  obtain ⟨n, objs', hpc⟩ := hidle
  rw [State.ringCall, dif_pos hlt, Option.isSome_map, ringStep, hpc]
  rfl

theorem Called.pc_self {t : τ} {side : Side} {objs : List α} {pc : Pc α}
    (h : Called s s' t side objs pc) : s'.pc t = pc := by
  rw [h.pc, Function.update_self]

theorem Called.same {t t' : τ} {side : Side} {objs : List α} {pc : Pc α}
    (h : Called s s' t side objs pc) (hne : t' ≠ t) : Same s s' t' where
  pc := by rw [h.pc, Function.update_of_ne hne]
  cache := by rw [h.cache]
  held := by rw [h.held]
  ring := by
    obtain ⟨_, hring⟩ := h.ring
    rw [hring, Ring.goto_pc_ne _ hne]

theorem Called.uses {t : τ} {side : Side} {objs : List α} {pc : Pc α}
    (h : Called s s' t side objs pc) : Uses side objs.length (s'.ring.pc t) := by
  obtain ⟨hlt, hring⟩ := h.ring
  rw [hring, Ring.goto_pc_self]
  exact ⟨rfl, rfl, (bulk side objs hlt).length_eq.symm⟩

theorem Called.ring_inv {t : τ} {side : Side} {objs : List α} {pc : Pc α}
    (h : Called s s' t side objs pc) (hr : u.ring.WellFormed)
    (hmulti : ∀ side, (u.ring.ht side).single = false) (hinv : Ring.Inv u.ring s.ring) :
    Ring.Inv u.ring s'.ring := by
  obtain ⟨_, hstep⟩ := h.step
  apply hinv.step hr _ hstep
  intro hsingle
  rw [hmulti] at hsingle
  cases hsingle

theorem setHeld_same (objs : List α) {t t' : τ} (hne : t' ≠ t) : Same s (s.setHeld t objs) t' :=
  ⟨rfl, rfl, Function.update_of_ne hne _ _, rfl⟩

theorem setCache_same (c : RteMempoolCache α) {t t' : τ} (hne : t' ≠ t) :
    Same s (s.setCache t c) t' :=
  ⟨rfl, Function.update_of_ne hne _ _, rfl, rfl⟩

theorem goto_same (pc : Pc α) {t t' : τ} (hne : t' ≠ t) : Same s (s.goto t pc) t' :=
  ⟨Function.update_of_ne hne _ _, rfl, rfl, rfl⟩

@[simp] theorem goto_localCache (pc : Pc α) (t : τ) :
    (s.goto t pc).localCache = s.localCache := rfl

@[simp] theorem goto_held (pc : Pc α) (t : τ) : (s.goto t pc).held = s.held := rfl

@[simp] theorem setCache_held (c : RteMempoolCache α) (t : τ) :
    (s.setCache t c).held = s.held := rfl

@[simp] theorem setHeld_localCache (objs : List α) (t : τ) :
    (s.setHeld t objs).localCache = s.localCache := rfl

@[simp] theorem setHeld_held (objs : List α) (t : τ) : (s.setHeld t objs).held t = objs := by
  simp [State.setHeld]

@[simp] theorem setCache_cache (c : RteMempoolCache α) (t : τ) : (s.setCache t c).localCache t = c := by
  simp [State.setCache]

@[simp] theorem goto_pc (pc : Pc α) (t : τ) : (s.goto t pc).pc t = pc := by
  simp [State.goto]

theorem fillResponse_same (cache : RteMempoolCache α) (n : Nat) {t t' : τ} (hne : t' ≠ t) :
    Same s (fillResponse s t cache n) t' :=
  (setCache_same _ hne).trans (setHeld_same _ hne)

theorem fillResponse_cache (cache : RteMempoolCache α) (n : Nat) (t : τ) :
    (fillResponse s t cache n).localCache t = ⟨cache.len - .ofNat n, cache.objs⟩ :=
  setCache_cache _ t

theorem fillResponse_held (cache : RteMempoolCache α) (n : Nat) (t : τ) :
    (fillResponse s t cache n).held t =
      s.held t ++ fillFrom cache.objs n (cache.len - 1).toNat :=
  setHeld_held _ t

/-- The accounts of a thread that has begun a call. -/
theorem Called.own {t : τ} {side : Side} {objs : List α} {pc : Pc α}
    (h : Called s s' t side objs pc) : s'.own u t = ↑(s'.inCache u t) + ↑(s.held t) +
      ↑(if side = .prod then objs else []) := by
  obtain ⟨hlt, hring⟩ := h.ring
  rw [State.own, hring, Ring.goto_pc_self, h.held]
  change _ + (_ + (([] : List α) : Multiset α)) = _
  rw [Multiset.coe_nil, add_zero]
  rfl

theorem Called.inRing {t : τ} {side : Side} {objs : List α} {pc : Pc α}
    (h : Called s s' t side objs pc) : s'.ring.inRing = s.ring.inRing := by
  obtain ⟨hlt, hring⟩ := h.ring
  rw [hring]
  rfl

section
variable [Fintype τ] {pool : Multiset α}

/-- A thread has begun a call, out of a state `s₀` that differs from `s` in its own
cache and its caller's objects only. -/
theorem Inv.begins (hr : u.ring.WellFormed) (hmulti : ∀ side, (u.ring.ht side).single = false)
    (h : Inv u pool s) {s₀ : State τ α} {t : τ} {side : Side} {objs : List α} {pc : Pc α}
    (hcalled : Called s₀ s' t side objs pc) (hring : s₀.ring = s.ring)
    (hother : ∀ t', t' ≠ t → Same s s₀ t') (hobjs : (s₀.localCache t).objs.length = 1536)
    (hlink : s'.Link u t) (haccounts : (s'.inCache u t : Multiset α) + ↑(s₀.held t) +
      ↑(if side = .prod then objs else []) = s.own u t) : Inv u pool s' := by
  have hinv : Ring.Inv u.ring s₀.ring := by
    rw [hring]
    exact h.ring
  apply h.of_local t (hcalled.ring_inv hr hmulti hinv)
  · intro t' hne
    exact (hother t' hne).trans (hcalled.same hne)
  · rw [hcalled.cache]
    exact hobjs
  · exact hlink
  · rw [hcalled.inRing, hcalled.own, haccounts, hring]

/-! ## Putting -/

theorem Inv.put (hr : u.ring.WellFormed) (hmulti : ∀ side, (u.ring.ht side).single = false)
    (h : Inv u pool s) {t : τ} {objs rest : List α} (hpc : s.pc t = .ready)
    (hperm : (objs ++ rest).Perm (s.held t))
    (hstep : mempoolGenericPut u (s.setHeld t rest) t objs = some s') : Inv u pool s' := by
  have hlink := h.link t
  simp only [State.Link, hpc] at hlink
  obtain ⟨hidle, hrest⟩ := hlink
  have hown := own_of_ready (u := u) hpc hidle
  have hheld : (s.held t : Multiset α) = ↑objs + ↑rest := by
    rw [Multiset.coe_add]
    exact Multiset.coe_eq_coe.mpr hperm.symm
  unfold mempoolGenericPut at hstep
  split at hstep
  · have hcalled := ringCall_called hstep
    apply h.begins hr hmulti hcalled rfl (fun t' hne => setHeld_same rest hne) (h.objs_length t)
    · simp only [State.Link, hcalled.pc_self]
      refine ⟨⟨_, hcalled.uses⟩, ?_⟩
      rw [hcalled.cache]
      exact hrest
    · have hcache : s'.inCache u t = (s.localCache t).objs.take (s.localCache t).len.toNat := by
        simp only [State.inCache, hcalled.pc_self, hcalled.cache]
        rfl
      rw [hown, hheld, hcache, if_pos rfl, setHeld_held]
      abel
  · next hcached =>
    obtain ⟨cache, hadd, hstep⟩ := Option.bind_eq_some_iff.mp hstep
    obtain ⟨hlen, hlength, hle, htake⟩ := add_spec (h.objs_length t) hadd
    have hlink₀ : u.pool.cacheSize.toNat ≤ flushthresh u := by
      rw [flushthresh_eq]
      omega
    have hinCache : (cache.objs.take cache.len.toNat : Multiset α) =
        ↑((s.localCache t).objs.take (s.localCache t).len.toNat) + ↑objs := by
      rw [htake, Multiset.coe_add]
    split at hstep
    · next hflush =>
      have hge : flushthresh u ≤ cache.len.toNat := UInt32.le_iff_toNat_le.mp hflush
      have hcalled := ringCall_called hstep
      apply h.begins hr hmulti hcalled rfl
      · intro t' hne
        exact (setHeld_same rest hne).trans (setCache_same cache hne)
      · rw [setCache_cache]
        exact hlength
      · have huses := hcalled.uses
        rw [List.length_drop, List.length_take, Nat.min_eq_left (by omega)] at huses
        simp only [State.Link, hcalled.pc_self, hcalled.cache, setCache_cache]
        exact ⟨huses, by omega, hle⟩
      · have hcache : s'.inCache u t = (cache.objs.take cache.len.toNat).take
            u.pool.cacheSize.toNat := by
          simp only [State.inCache, hcalled.pc_self, hcalled.cache, setCache_cache]
          rw [List.take_take, Nat.min_eq_left (by omega)]
        have hparts : (cache.objs.take cache.len.toNat : Multiset α) =
            ↑((cache.objs.take cache.len.toNat).take u.pool.cacheSize.toNat) +
              ↑((cache.objs.take cache.len.toNat).drop u.pool.cacheSize.toNat) := by
          rw [Multiset.coe_add, List.take_append_drop]
        rw [hown, hheld, hcache, if_pos rfl, setCache_held, setHeld_held, add_right_comm,
          ← hparts, hinCache]
        abel
    · next hkeep =>
      cases hstep
      have hlt : cache.len.toNat < flushthresh u :=
        Nat.lt_of_not_le fun hle => hkeep (UInt32.le_iff_toNat_le.mpr hle)
      apply h.returns (t := t) hidle
      · rfl
      · intro t' hne
        exact (setHeld_same rest hne).trans (setCache_same cache hne)
      · exact hpc
      · rw [setCache_cache]
        exact hlength
      · rw [setCache_cache]
        exact Or.inl hlt
      · rw [setCache_cache, hinCache, hown, hheld]
        rw [setCache_held, setHeld_held]
        abel

/-! ## Getting -/

theorem Inv.get (hr : u.ring.WellFormed) (hmulti : ∀ side, (u.ring.ht side).single = false)
    (h : Inv u pool s) {t : τ} {objTable : List α} (hpc : s.pc t = .ready)
    (hlt : objTable.length < 2 ^ 32) (hstep : mempoolGenericGet u s t objTable = some s') :
    Inv u pool s' := by
  have hlink := h.link t
  simp only [State.Link, hpc] at hlink
  obtain ⟨hidle, hrest⟩ := hlink
  have hown := own_of_ready (u := u) hpc hidle
  have hn : (UInt32.ofNat objTable.length).toNat = objTable.length := by
    rw [UInt32.toNat_ofNat', Nat.mod_eq_of_lt hlt]
  have hmax : u.pool.cacheSize.toNat ≤ 512 := UInt32.le_iff_toNat_le.mp u.pool.cacheSize_le
  unfold mempoolGenericGet at hstep
  dsimp only at hstep
  split at hstep
  · have hcalled := ringCall_called hstep
    apply h.begins hr hmulti hcalled rfl (fun t' _ => Same.refl s t') (h.objs_length t)
    · simp only [State.Link, hcalled.pc_self, hcalled.cache]
      exact ⟨hcalled.uses, hrest⟩
    · have hcache : s'.inCache u t = (s.localCache t).objs.take (s.localCache t).len.toNat := by
        simp only [State.inCache, hcalled.pc_self, hcalled.cache]
      rw [hown, hcache, if_neg Side.noConfusion, Multiset.coe_nil, add_zero]
  · next hcached =>
    rw [not_or] at hcached
    split at hstep
    · next hless =>
      obtain ⟨hsmall, hless, hreq⟩ := backfill_req hlt hcached.2 hless
      split at hstep
      · next hfits =>
        have hcalled := ringCall_called hstep
        apply h.begins hr hmulti hcalled rfl (fun t' _ => Same.refl s t') (h.objs_length t)
        · have huses := hcalled.uses
          rw [List.length_take, List.length_drop, Nat.min_eq_left (by omega), hreq] at huses
          simp only [State.Link, hcalled.pc_self, hcalled.cache]
          exact ⟨huses, hless, hsmall⟩
        · have hcache : s'.inCache u t =
              (s.localCache t).objs.take (s.localCache t).len.toNat := by
            simp only [State.inCache, hcalled.pc_self, hcalled.cache]
          rw [hown, hcache, if_neg Side.noConfusion, Multiset.coe_nil, add_zero]
      · cases hstep
    · next hmore =>
      rw [UInt32.lt_iff_toNat_lt, hn] at hmore
      cases hstep
      have hle := hrest.len_le
      have hlen := h.objs_length t
      have htaken := taken_accounts (c := s.localCache t) (n := objTable.length) (by omega)
        (by omega)
      apply h.returns (t := t) hidle
      · rfl
      · intro t' hne
        exact fillResponse_same _ _ hne
      · exact hpc
      · rw [fillResponse_cache]
        exact hlen
      · rw [fillResponse_cache]
        unfold Resting at hrest ⊢
        dsimp only
        rw [taken_len (by omega)]
        omega
      · rw [hown, fillResponse_cache, fillResponse_held, ← Multiset.coe_add, ← htaken]
        abel

theorem Inv.cacheFlush (hr : u.ring.WellFormed) (hmulti : ∀ side, (u.ring.ht side).single = false)
    (h : Inv u pool s) {t : τ} (hpc : s.pc t = .ready)
    (hstep : rteMempoolCacheFlush u s t = some s') : Inv u pool s' := by
  have hlink := h.link t
  simp only [State.Link, hpc] at hlink
  obtain ⟨hidle, hrest⟩ := hlink
  have hown := own_of_ready (u := u) hpc hidle
  have hlen := h.objs_length t
  have hle := hrest.len_le
  unfold rteMempoolCacheFlush at hstep
  dsimp only at hstep
  split at hstep
  · cases hstep
    exact h
  · have hcalled := ringCall_called hstep
    apply h.begins hr hmulti hcalled rfl (fun t' _ => Same.refl s t') hlen
    · have huses := hcalled.uses
      rw [List.length_take, Nat.min_eq_left (by omega)] at huses
      simp only [State.Link, hcalled.pc_self, hcalled.cache]
      exact ⟨huses, hrest⟩
    · have hcache : s'.inCache u t = [] := by
        simp only [State.inCache, hcalled.pc_self]
      rw [hown, hcache, if_pos rfl, Multiset.coe_nil]
      abel

/-! ## In the ring -/

theorem Inv.ringStep (hr : u.ring.WellFormed)
    (h : Inv u pool s) (hpool : pool.card ≤ u.ring.capacity.toNat) {t : τ} {ring : Ring.State τ α}
    (hpc : s.pc t ≠ .ready) (hok : okRing u.ring s.ring (.step t))
    (hnear : ∀ c oldHead seen, s.ring.pc t = .readTail c oldHead seen → c.side = .prod →
      s.ring.reserved.length < seen + 2 ^ 31)
    (hstep : Ring.ringStep s.ring (.step t) = some ring) : Inv u pool { s with ring } := by
  obtain ⟨count, hu, hlink⟩ := (h.link t).uses hpc
  have hring := h.ring.step hr hok hstep
  have hmove := Ring.move_of_ringStep hstep
  have hfits : ∀ c oldHead seen, s.ring.pc t = .readTail c oldHead seen →
      (s.pc t).side = .prod →
      Ring.moveBy c.n c.behavior (s.ring.ring.entries oldHead c.side) = c.n := by
    intro c oldHead seen hread hside
    have hseen := h.ring.ok t
    rw [hread] at hseen hu
    have hprod : c.side = .prod := hu.1.trans hside
    have hroom := h.room hpool t
    rw [hread] at hroom
    change _ + (if c.side = .prod then c.objTable else []).length ≤ _ at hroom
    rw [if_pos hprod, c.length_eq] at hroom
    exact Ring.enqueue_fits hr h.ring hseen hprod (hnear c oldHead seen hread hprod) hroom
  apply h.of_local t
  · exact hring
  · intro t' hne
    exact ⟨rfl, rfl, rfl, hmove.pc_ne hne⟩
  · exact h.objs_length t
  · exact hlink ring (hu.step h.ring hfits hmove)
  · have haccounts := Ring.accounts_step h.ring hring hu hfits hmove
    change (ring.inRing : Multiset α) + (↑(s.inCache u t) + ↑(s.held t) +
      (↑(ring.pc t).offered + ↑((ring.pc t).result (s.pc t).side))) = _
    rw [add_left_comm, haccounts, State.own, add_left_comm]

/-! ## After the ring -/

/-- The call has moved nothing from or to the caller. -/
theorem Inv.unmoved (h : Inv u pool s) {t : τ} {n : UInt32} {objs : List α}
    (hring : s.ring.pc t = .idle n objs) (hnone : ¬((s.pc t).side = .cons ∧ n ≠ 0))
    (hcache : s.inCache u t = (s.localCache t).objs.take (s.localCache t).len.toNat)
    (hrest : Resting u (s.localCache t)) : Inv u pool (s.goto t .ready) := by
  apply h.returns (t := t) ⟨n, objs, hring⟩
  · rfl
  · intro t' hne
    exact goto_same _ hne
  · exact goto_pc _ t
  · exact h.objs_length t
  · exact hrest
  · rw [own_of_idle hring, if_neg hnone, hcache, Multiset.coe_nil, add_zero]
    rfl

/-- The ring has taken what a thread has given it out of its cache. -/
theorem Inv.flushed (h : Inv u pool s) {t : τ} {n len : UInt32} {objs : List α}
    (hring : s.ring.pc t = .idle n objs) (hside : (s.pc t).side ≠ .cons)
    (hcache : s.inCache u t = (s.localCache t).objs.take len.toNat)
    (hle : len.toNat ≤ u.pool.cacheSize.toNat) :
    Inv u pool ((s.setCache t ⟨len, (s.localCache t).objs⟩).goto t .ready) := by
  apply h.returns (t := t) ⟨n, objs, hring⟩
  · rfl
  · intro t' hne
    exact (setCache_same _ hne).trans (goto_same _ hne)
  · exact goto_pc _ t
  · rw [goto_localCache, setCache_cache]
    exact h.objs_length t
  · rw [goto_localCache, setCache_cache]
    exact Or.inr hle
  · rw [goto_localCache, setCache_cache, goto_held, setCache_held, own_of_idle hring, hcache,
      if_neg fun hc => hside hc.1, Multiset.coe_nil, add_zero]

/-- The ring has given a thread what its cache lacks. -/
theorem Inv.backfilled (h : Inv u pool s) {t : τ} {n : UInt32} {objs objTable : List α}
    {cache : RteMempoolCache α} (hring : s.ring.pc t = .idle n objs)
    (hpc : s.pc t = .getBackfill objTable) (hne₀ : n ≠ 0)
    (hadd : (s.localCache t).add objs = some cache) :
    Inv u pool ((fillResponse s t cache objTable.length).goto t .ready) := by
  have hlink := h.link t
  simp only [State.Link, hpc] at hlink
  obtain ⟨huses, hless, hsmall⟩ := hlink
  rw [hring] at huses
  have hcount : objs.length =
      objTable.length + u.pool.cacheSize.toNat - (s.localCache t).len.toNat := by
    rcases huses with huses | huses
    · exact huses.2
    · exact absurd huses.2 hne₀
  obtain ⟨hlen, hlength, hle, htake⟩ := add_spec (h.objs_length t) hadd
  have htaken := taken_accounts (c := cache) (n := objTable.length) (by omega) (by omega)
  apply h.returns (t := t) ⟨n, objs, hring⟩
  · rfl
  · intro t' hne
    exact (fillResponse_same _ _ hne).trans (goto_same _ hne)
  · exact goto_pc _ t
  · rw [goto_localCache, fillResponse_cache]
    exact hlength
  · rw [goto_localCache, fillResponse_cache]
    apply Or.inr
    dsimp only
    rw [taken_len (by omega)]
    omega
  · have hcache : s.inCache u t = (s.localCache t).objs.take (s.localCache t).len.toNat := by
      simp only [State.inCache, hpc]
    rw [goto_localCache, goto_held, fillResponse_cache, fillResponse_held, own_of_idle hring,
      hpc, if_pos ⟨rfl, hne₀⟩, hcache, add_right_comm, Multiset.coe_add _ objs, ← htake,
      ← htaken, ← Multiset.coe_add]
    abel

theorem Inv.resume (hr : u.ring.WellFormed) (hmulti : ∀ side, (u.ring.ht side).single = false)
    (h : Inv u pool s) {t : τ} {n : UInt32} {objs : List α} (hring : s.ring.pc t = .idle n objs)
    (hstep : resume u s t n objs = some s') : Inv u pool s' := by
  have hlink := h.link t
  have hown := own_of_idle (u := u) hring
  have hidle : ∃ n objs, s.ring.pc t = .idle n objs := ⟨n, objs, hring⟩
  have hlen := h.objs_length t
  unfold Mempool.resume at hstep
  dsimp only at hstep
  split at hstep
  · cases hstep
  · next hpc =>
    cases hstep
    apply h.flushed hring
    · rw [hpc]
      exact Side.noConfusion
    · simp only [State.inCache, hpc]
    · exact Nat.le_refl _
  · next hpc =>
    cases hstep
    simp only [State.Link, hpc] at hlink
    apply h.unmoved hring
    · rw [hpc]
      exact fun hc => Side.noConfusion hc.1
    · simp only [State.inCache, hpc]
    · exact hlink.2
  · next hpc =>
    cases hstep
    apply h.flushed hring
    · rw [hpc]
      exact Side.noConfusion
    · simp only [State.inCache, hpc]
      rfl
    · exact Nat.zero_le _
  · next objTable hpc =>
    simp only [State.Link, hpc] at hlink
    obtain ⟨_, hless, hsmall⟩ := hlink
    split at hstep
    · next hzero =>
      have hcalled := ringCall_called hstep
      apply h.begins hr hmulti hcalled rfl (fun t' _ => Same.refl s t') hlen
      · simp only [State.Link, hcalled.pc_self, hcalled.cache]
        exact ⟨hcalled.uses, Or.inr (by omega)⟩
      · have hcache : s'.inCache u t = s.inCache u t := by
          simp only [State.inCache, hcalled.pc_self, hcalled.cache, hpc]
        rw [hown, hcache, if_neg Side.noConfusion, if_neg fun hc => hc.2 hzero]
    · next hne₀ =>
      obtain ⟨cache, hadd, rfl⟩ := Option.map_eq_some_iff.mp hstep
      exact h.backfilled hring hpc hne₀ hadd
  · next objTable hpc =>
    simp only [State.Link, hpc] at hlink
    have hcache : s.inCache u t = (s.localCache t).objs.take (s.localCache t).len.toNat := by
      simp only [State.inCache, hpc]
    split at hstep
    · next hzero =>
      cases hstep
      exact h.unmoved hring (fun hc => hc.2 hzero) hcache hlink.2
    · next hne₀ =>
      cases hstep
      apply h.returns (t := t) hidle
      · rfl
      · intro t' hne
        exact (setHeld_same _ hne).trans (goto_same _ hne)
      · exact goto_pc _ t
      · exact hlen
      · exact hlink.2
      · rw [goto_localCache, setHeld_localCache, goto_held, setHeld_held, hown, hpc,
          if_pos ⟨rfl, hne₀⟩, hcache, ← Multiset.coe_add]
        abel

end

/-! ## Runs -/

/-- Between its read of a head and its compare-and-set, a thread is not overtaken by
`2 ^ 31` pointers. -/
def okNear (s : Ring.State τ α) : Ring.Pc α → Prop
  | .readTail c _ seen | .cmpset c _ _ seen => s.headCount c.side < seen + 2 ^ 31
  | _ => True

def okPool (s : State τ α) : Action τ α → Prop
  | .ring t => okNear s.ring (s.ring.pc t)
  | _ => True

instance (s : Ring.State τ α) : (pc : Ring.Pc α) → Decidable (okNear s pc)
  | .readTail c _ seen | .cmpset c _ _ seen =>
    inferInstanceAs (Decidable (s.headCount c.side < seen + 2 ^ 31))
  | .idle _ _ | .readHead _ | .copy _ _ _ _ _ | .updateTail _ _ _ _ | .storeTail _ _ _ _ =>
    inferInstanceAs (Decidable True)

instance (s : State τ α) : (a : Action τ α) → Decidable (okPool s a)
  | .ring t => inferInstanceAs (Decidable (okNear s.ring (s.ring.pc t)))
  | .put _ _ _ | .get _ _ | .cacheFlush _ | .resume _ => inferInstanceAs (Decidable True)

/-- A pool without the flags for single threads, whose ring has been filled and
whose caches are empty. -/
structure Start (u : Setup τ) (s : State τ α) : Prop where
  multi : ∀ side, (u.ring.ht side).single = false
  ring : ∃ cells, Ring.Fresh u.ring cells ∧
    (Ring.threads u.ring cells).ReachableBy (okRing u.ring) s.ring
  idle : ∀ t, ∃ n objs, s.ring.pc t = .idle n objs
  ready : ∀ t, s.pc t = .ready
  cache : ∀ t, (s.localCache t).len = 0 ∧ (s.localCache t).objs.length = 1536
  held : ∀ t, s.held t = []

def threads [DecidableEq α] (u : Setup τ) (s : State τ α) : System (State τ α) (Action τ α) where
  init := s
  step := poolStep u

section
variable [Fintype τ] {pool : Multiset α}

theorem Start.inv (h : Start u s) : Inv u ↑s.ring.inRing s := by
  obtain ⟨cells, hfresh, hreach⟩ := h.ring
  refine ⟨Ring.inv_of_reachable hfresh hreach, fun t => (h.cache t).2, ?_, ?_⟩
  · intro t
    simp only [State.Link, h.ready t]
    refine ⟨h.idle t, Or.inr ?_⟩
    rw [(h.cache t).1]
    exact Nat.zero_le _
  · have hnone : s.own u = fun _ => 0 := by
      funext t
      rw [own_of_ready (h.ready t) (h.idle t), (h.cache t).1, h.held t]
      rfl
    rw [hnone, total, Finset.sum_const_zero, add_zero]

theorem Inv.step [DecidableEq α] (hr : u.ring.WellFormed) (hmulti : ∀ side, (u.ring.ht side).single = false)
    (hpool : pool.card ≤ u.ring.capacity.toNat) (h : Inv u pool s) {a : Action τ α}
    (hok : okPool s a) (hstep : poolStep u s a = some s') : Inv u pool s' := by
  cases a with
  | put t objs rest =>
    simp only [poolStep] at hstep
    split at hstep
    · next hpc =>
      split at hstep
      · next hperm => exact h.put hr hmulti hpc hperm hstep
      · cases hstep
    · cases hstep
  | get t objTable =>
    simp only [poolStep] at hstep
    split at hstep
    · next hpc =>
      split at hstep
      · next hlt => exact h.get hr hmulti hpc hlt hstep
      · cases hstep
    · cases hstep
  | cacheFlush t =>
    simp only [poolStep] at hstep
    split at hstep
    · next hpc => exact h.cacheFlush hr hmulti hpc hstep
    · cases hstep
  | ring t =>
    simp only [poolStep] at hstep
    split at hstep
    · cases hstep
    · next hpc =>
      obtain ⟨ring, hring, rfl⟩ := Option.map_eq_some_iff.mp hstep
      simp only [okPool] at hok
      apply h.ringStep hr hpool hpc _ _ hring
      · change Ring.okCas s.ring (s.ring.pc t)
        cases hp : s.ring.pc t with
        | cmpset c oldHead n seen =>
          rw [hp] at hok
          change s.ring.headCount c.side < seen + 2 ^ 32
          change s.ring.headCount c.side < seen + 2 ^ 31 at hok
          omega
        | _ => trivial
      · intro c oldHead seen hread hside
        rw [hread] at hok
        change s.ring.headCount c.side < seen + 2 ^ 31 at hok
        rw [hside] at hok
        exact hok
  | resume t =>
    simp only [poolStep] at hstep
    split at hstep
    · next hidle => exact h.resume hr hmulti hidle hstep
    · cases hstep

theorem Start.card_le (h : Start u s) : (s.ring.inRing : Multiset α).card ≤ u.ring.capacity.toNat := by
  have hcounts := h.inv.ring.counts
  rw [Multiset.coe_card, Ring.State.inRing, List.length_drop]
  omega

theorem inv_of_reachable [DecidableEq α] {s₀ : State τ α} (hstart : Start u s₀)
    (hs : (threads u s₀).ReachableBy okPool s) : Inv u ↑s₀.ring.inRing s := by
  obtain ⟨cells, hfresh, -⟩ := hstart.ring
  apply hs.invariant hstart.inv
  intro s a s' _ hi hok hstep
  exact hi.step hfresh.wellFormed hstart.multi hstart.card_le hok hstep

/-- What two threads have got are different objects, if the pool has none twice. -/
theorem Inv.held_apart (h : Inv u pool s) (hpool : pool.Nodup) :
    (∀ t, (s.held t).Nodup) ∧ ∀ t t', t ≠ t' → (s.held t).Disjoint (s.held t') := by
  have hheld : ∀ t, (s.held t : Multiset α) ≤ s.own u t := fun t =>
    le_trans (Multiset.le_add_left _ _) (Multiset.le_add_right _ _)
  constructor
  · intro t
    have hle : (s.held t : Multiset α) ≤ pool := by
      rw [← h.total]
      exact le_trans (hheld t) (le_trans (Multiset.le_add_left _ _) (own_le_total _ _ t))
    exact Multiset.coe_nodup.mp (Multiset.nodup_of_le hle hpool)
  · intro t t' hne
    have hle : (s.held t : Multiset α) + s.held t' ≤ pool := by
      rw [← h.total]
      exact le_trans (add_le_add (hheld t) (hheld t')) (own_add_own_le_total _ _ hne)
    have hnodup := Multiset.nodup_of_le hle hpool
    rw [Multiset.coe_add, Multiset.coe_nodup] at hnodup
    exact List.disjoint_of_nodup_append hnodup

/-- **No packet buffer is lost or duplicated** in a pool without the single-side flags,
as long as no thread is overtaken by `2 ^ 31` pointers (`okPool`). However the calls
of the threads interleave, down to the accesses to the ring, the objects in the
ring, in the caches and with the threads are the ones that the pool was filled with;
no cache overflows; what a thread puts into the ring goes in, which the code does
not check; and no object is with two threads. -/
theorem mempool_conserved [DecidableEq α] {s₀ : State τ α} (hstart : Start u s₀)
    (hs : (threads u s₀).ReachableBy okPool s) :
    total ↑s.ring.inRing (s.own u) = ↑s₀.ring.inRing ∧
      (∀ t, (s.localCache t).len.toNat ≤ (s.localCache t).objs.length) ∧
      (∀ t n objs, s.pc t ≠ .ready → (s.pc t).side = .prod → s.ring.pc t = .idle n objs →
        n.toNat = objs.length) ∧
      (s₀.ring.inRing.Nodup →
        (∀ t, (s.held t).Nodup) ∧ ∀ t t', t ≠ t' → (s.held t).Disjoint (s.held t')) := by
  have h := inv_of_reachable hstart hs
  refine ⟨h.total, ?_, ?_, ?_⟩
  · intro t
    rw [h.objs_length t]
    exact (h.link t).len_le
  · intro t n objs hpc hside hidle
    obtain ⟨count, hu, -⟩ := (h.link t).uses hpc
    rw [hidle, hside] at hu
    rcases hu with ⟨hn, hlen⟩ | ⟨hcons, -⟩
    · exact hn.trans hlen.symm
    · cases hcons
  · intro hnodup
    exact h.held_apart (Multiset.coe_nodup.mpr hnodup)

/-! ## No access outside a cache -/

theorem Inv.put_isSome (h : Inv u pool s) {t : τ} {objs : List α} (rest : List α)
    (hpc : s.pc t = .ready) (hlt : objs.length < 2 ^ 32) :
    (mempoolGenericPut u (s.setHeld t rest) t objs).isSome := by
  have hlink := h.link t
  simp only [State.Link, hpc] at hlink
  obtain ⟨hidle, hrest⟩ := hlink
  have hlen := h.objs_length t
  unfold mempoolGenericPut
  split
  · exact ringCall_isSome _ _ hidle hlt
  · next hcached =>
    rw [not_or, Nat.not_lt] at hcached
    have hmax : RTE_MEMPOOL_CACHE_MAX_SIZE.toNat = 512 := rfl
    have hle := hrest.len_le
    have hroom : (s.localCache t).len.toNat + objs.length ≤ (s.localCache t).objs.length := by omega
    obtain ⟨cache, hadd⟩ := Option.isSome_iff_exists.mp (add_isSome hroom)
    obtain ⟨-, hlength, -⟩ := add_spec hlen hadd
    rw [setHeld_localCache, hadd, Option.bind_some]
    split
    · refine ringCall_isSome _ _ hidle ?_
      rw [List.length_drop, List.length_take]
      omega
    · rfl

theorem Inv.get_isSome (h : Inv u pool s) {t : τ} {objTable : List α} (hpc : s.pc t = .ready)
    (hlt : objTable.length < 2 ^ 32) : (mempoolGenericGet u s t objTable).isSome := by
  have hlink := h.link t
  simp only [State.Link, hpc] at hlink
  obtain ⟨hidle, hrest⟩ := hlink
  have hlen := h.objs_length t
  have hmax : u.pool.cacheSize.toNat ≤ 512 := UInt32.le_iff_toNat_le.mp u.pool.cacheSize_le
  unfold mempoolGenericGet
  dsimp only
  split
  · exact ringCall_isSome _ _ hidle hlt
  · next hcached =>
    rw [not_or] at hcached
    split
    · next hless =>
      obtain ⟨hsmall, hless, hreq⟩ := backfill_req hlt hcached.2 hless
      rw [if_pos (by omega)]
      apply ringCall_isSome _ _ hidle
      rw [List.length_take, List.length_drop]
      omega
    · rfl

theorem Inv.cacheFlush_isSome (h : Inv u pool s) {t : τ} (hpc : s.pc t = .ready) :
    (rteMempoolCacheFlush u s t).isSome := by
  have hlink := h.link t
  simp only [State.Link, hpc] at hlink
  have hlen := h.objs_length t
  unfold rteMempoolCacheFlush
  dsimp only
  split
  · rfl
  · apply ringCall_isSome _ _ hlink.1
    rw [List.length_take]
    omega

theorem Inv.resume_isSome (h : Inv u pool s) {t : τ} (hpc : s.pc t ≠ .ready) {n : UInt32}
    {objs : List α} (hring : s.ring.pc t = .idle n objs) : (Mempool.resume u s t n objs).isSome := by
  have hlink := h.link t
  have hlen := h.objs_length t
  have hmax : u.pool.cacheSize.toNat ≤ 512 := UInt32.le_iff_toNat_le.mp u.pool.cacheSize_le
  unfold Mempool.resume
  dsimp only
  cases hp : s.pc t with
  | ready => exact absurd hp hpc
  | putFlush => rfl
  | putRing => rfl
  | cacheFlush => rfl
  | getBackfill objTable =>
    simp only [State.Link, hp, hring] at hlink
    obtain ⟨huses, hless, hsmall⟩ := hlink
    dsimp only
    split
    · apply ringCall_isSome _ _ ⟨n, objs, hring⟩
      omega
    · next hne =>
      rw [Option.isSome_map]
      apply add_isSome
      rcases huses with huses | huses
      · omega
      · exact absurd huses.2 hne
  | getRing objTable =>
    dsimp only
    split
    · rfl
    · rfl

/-- **A thread is never stuck in the pool**, under the same conditions. Every call that
a thread makes with objects that it holds can begin, and a thread in a call has a
next step: no array of a cache is accessed past its end, and the ring neither. The
step may be one that waits for another thread, or a compare-and-set that fails. -/
theorem mempool_never_stuck [DecidableEq α] {s₀ : State τ α} (hstart : Start u s₀)
    (hs : (threads u s₀).ReachableBy okPool s) (t : τ) :
    (s.pc t = .ready →
      (∀ objs rest, (objs ++ rest).Perm (s.held t) → objs.length < 2 ^ 32 →
        (poolStep u s (.put t objs rest)).isSome) ∧
      (∀ objTable, objTable.length < 2 ^ 32 → (poolStep u s (.get t objTable)).isSome) ∧
      (poolStep u s (.cacheFlush t)).isSome) ∧
    (s.pc t ≠ .ready → (poolStep u s (.ring t)).isSome ∨ (poolStep u s (.resume t)).isSome) := by
  have h := inv_of_reachable hstart hs
  obtain ⟨cells, hfresh, -⟩ := hstart.ring
  constructor
  · intro hpc
    refine ⟨?_, ?_, ?_⟩
    · intro objs rest hperm hlt
      simp only [poolStep, hpc, hperm, ↓reduceIte]
      exact h.put_isSome rest hpc hlt
    · intro objTable hlt
      simp only [poolStep, hpc, hlt, ↓reduceIte]
      exact h.get_isSome hpc hlt
    · simp only [poolStep, hpc]
      exact h.cacheFlush_isSome hpc
  · intro hpc
    cases hside : (s.ring.pc t).side with
    | none =>
      apply Or.inr
      cases hring : s.ring.pc t with
      | idle n objs =>
        simp only [poolStep, hring]
        exact h.resume_isSome hpc hring
      | _ =>
        rw [hring] at hside
        cases hside
    | some side =>
      apply Or.inl
      have hstep := h.ring.step_isSome hfresh.wellFormed hside
      cases hp : s.pc t with
      | ready => exact absurd hp hpc
      | _ =>
        simp only [poolStep, hp, Option.isSome_map]
        exact hstep

end

/-! A pool of three objects with caches of two, for two threads. -/

def threeObjects : Setup Bool where
  pool := (rteMempoolCreateEmpty 3 2).get (by decide)
  ring := Ring.fourCells
  lcoreId t := if t then 1 else 0

def fill : List (Ring.Action Bool Nat) :=
  [.call false ⟨.prod, .RTE_RING_QUEUE_FIXED, 3, [7, 8, 9], rfl⟩] ++ List.replicate 9 (.step false)

theorem fill_isSome : (Ring.twoThreads.run Ring.twoThreads.init fill).isSome := by decide

def filled : State Bool Nat where
  ring := (Ring.twoThreads.run Ring.twoThreads.init fill).get fill_isSome
  localCache _ := ⟨0, List.replicate 1536 0⟩
  pc _ := .ready
  held _ := []

theorem filled_start : Start threeObjects filled where
  multi side := by cases side <;> rfl
  ring := ⟨_, Ring.fourCells_fresh,
    Ring.reachable_of_twoThreads fill (Option.some_get fill_isSome).symm⟩
  idle t := by cases t <;> exact ⟨_, _, rfl⟩
  ready _ := rfl
  cache _ := ⟨rfl, List.length_replicate⟩
  held _ := rfl

/-- One thread gets an object by way of its cache and puts it back, which flushes the
cache; in between, the other one finds the ring empty. -/
def getPut : List (Action Bool Nat) :=
  [.get false [0]] ++ List.replicate 9 (.ring false) ++ [.resume false, .get true [0, 0]] ++
  List.replicate 2 (.ring true) ++ [.resume true, .put false [9] []] ++
  List.replicate 7 (.ring false) ++ [.resume false]

theorem getPut_runs : ∃ s, ((threads threeObjects filled).restrict fun s a =>
    decide (okPool s a)).run filled getPut = some s :=
  Option.isSome_iff_exists.mp (by decide +kernel)

theorem mempool_conserved_getPut :
    ∃ s, (threads threeObjects filled).run filled getPut = some s ∧
      total ↑s.ring.inRing (s.own threeObjects) = ↑filled.ring.inRing ∧
      (∀ t, (s.localCache t).len.toNat ≤ (s.localCache t).objs.length) ∧
      (∀ t n objs, s.pc t ≠ .ready → (s.pc t).side = .prod → s.ring.pc t = .idle n objs →
        n.toNat = objs.length) ∧
      (filled.ring.inRing.Nodup →
        (∀ t, (s.held t).Nodup) ∧ ∀ t t', t ≠ t' → (s.held t).Disjoint (s.held t')) := by
  obtain ⟨s, hrun⟩ := getPut_runs
  refine ⟨s, System.run_of_restrict getPut hrun, mempool_conserved filled_start ?_⟩
  exact (System.reachableBy_of_run getPut hrun).mono fun _ _ hok => of_decide_eq_true hok

theorem mempool_never_stuck_getPut :
    ∃ s, (threads threeObjects filled).run filled getPut = some s ∧
      (s.pc true = .ready →
        (∀ objs rest, (objs ++ rest).Perm (s.held true) → objs.length < 2 ^ 32 →
          (poolStep threeObjects s (.put true objs rest)).isSome) ∧
        (∀ objTable, objTable.length < 2 ^ 32 →
          (poolStep threeObjects s (.get true objTable)).isSome) ∧
        (poolStep threeObjects s (.cacheFlush true)).isSome) ∧
      (s.pc true ≠ .ready → (poolStep threeObjects s (.ring true)).isSome ∨
        (poolStep threeObjects s (.resume true)).isSome) := by
  obtain ⟨s, hrun⟩ := getPut_runs
  refine ⟨s, System.run_of_restrict getPut hrun, mempool_never_stuck filled_start ?_ true⟩
  exact (System.reachableBy_of_run getPut hrun).mono fun _ _ hok => of_decide_eq_true hok

end Pixelflut.Dpdk.Mempool

import Pixelflut.Dpdk.RingFifo

/-!
# The packet buffer pool of DPDK

A pool keeps its objects in a ring and, for each thread with an lcore id, in a
cache. Any number of threads put and get objects; each access to the ring is a
step of its own, and so is each part of a call between two uses of the ring. A
cache belongs to one thread. `held` is no variable of the pool: it is what a thread
has got and not yet put.
-/

namespace Pixelflut.Dpdk.Mempool

open Function (update)
open Lib.Transition
open Pixelflut.Dpdk.Ring (RteRing Call Side Behavior ringStep)

/-! ## A pool and its caches -/

abbrev RTE_MEMPOOL_CACHE_MAX_SIZE : UInt32 := 512

abbrev RTE_MAX_LCORE : UInt32 := 128

/-- `CALC_CACHE_FLUSHTHRESH`: one and a half times, rounded down. -/
def calcCacheFlushthresh (size : UInt32) : UInt32 := .ofNat (size.toNat * 3 / 2)

/-- A pool as its creation accepts it. -/
structure RteMempool where
  size : UInt32
  cacheSize : UInt32
  size_ne : size ≠ 0
  cacheSize_le : cacheSize ≤ RTE_MEMPOOL_CACHE_MAX_SIZE
  flushthresh_le : calcCacheFlushthresh cacheSize ≤ size

/-- The checks of `rte_mempool_create_empty`. -/
def rteMempoolCreateEmpty (n cacheSize : UInt32) : Option RteMempool :=
  if hn : n = 0 then none
  else if hcache : cacheSize > RTE_MEMPOOL_CACHE_MAX_SIZE ∨ calcCacheFlushthresh cacheSize > n then
    none
  else some ⟨n, cacheSize, hn, UInt32.not_lt.mp fun h => hcache (Or.inl h),
    UInt32.not_lt.mp fun h => hcache (Or.inr h)⟩

/-- The entries of a cache, of which the first `len` are in use. -/
structure RteMempoolCache (α : Type) where
  len : UInt32
  objs : List α

variable {τ α : Type}

/-- `cache->objs[len] = objs[0]` and so on; `none` past the end of the array. -/
def RteMempoolCache.add (c : RteMempoolCache α) (objs : List α) : Option (RteMempoolCache α) :=
  if c.len.toNat + objs.length ≤ c.objs.length then
    some ⟨c.len + .ofNat objs.length,
      c.objs.take c.len.toNat ++ objs ++ c.objs.drop (c.len.toNat + objs.length)⟩
  else none

/-- The loop that fills the response from the entry `len` down. -/
def fillFrom (objs : List α) : (n len : Nat) → List α
  | 0, _ => []
  | n + 1, len => objs[len]?.toList ++ fillFrom objs n (len - 1)

/-! ## States -/

/-- Where a thread is in the pool; in all but the first it uses the ring. -/
inductive Pc (α : Type) where
  | ready
  | putFlush
  | putRing
  | cacheFlush
  | getBackfill (objTable : List α)
  | getRing (objTable : List α)

structure State (τ α : Type) where
  ring : Ring.State τ α
  localCache : τ → RteMempoolCache α
  pc : τ → Pc α
  held : τ → List α

/-- What a run is about: a pool over a ring, and the lcore ids of the threads. -/
structure Setup (τ : Type) where
  pool : RteMempool
  ring : RteRing
  lcoreId : τ → UInt32

/-- `rte_mempool_default_cache` does not answer `NULL`. -/
def Setup.cached (u : Setup τ) (t : τ) : Bool :=
  u.pool.cacheSize ≠ 0 ∧ u.lcoreId t < RTE_MAX_LCORE

/-! ## Steps -/

/-- The arguments of an enqueue or dequeue of all or nothing. -/
def bulk (side : Side) (objs : List α) (h : objs.length < 2 ^ 32) : Call α where
  side := side
  behavior := .RTE_RING_QUEUE_FIXED
  n := .ofNat objs.length
  objTable := objs
  length_eq := by rw [UInt32.toNat_ofNat', Nat.mod_eq_of_lt h]

inductive Action (τ α : Type) where
  /-- Put `objs`, which leaves the thread with `rest`. -/
  | put (t : τ) (objs rest : List α)
  | get (t : τ) (objTable : List α)
  | cacheFlush (t : τ)
  | ring (t : τ)
  /-- The ring call of a thread has returned. -/
  | resume (t : τ)

variable [DecidableEq τ]

def State.goto (s : State τ α) (t : τ) (pc : Pc α) : State τ α := { s with pc := update s.pc t pc }

def State.setCache (s : State τ α) (t : τ) (c : RteMempoolCache α) : State τ α :=
  { s with localCache := update s.localCache t c }

def State.setHeld (s : State τ α) (t : τ) (objs : List α) : State τ α :=
  { s with held := update s.held t objs }

/-- `rte_mempool_ops_enqueue_bulk` or `rte_mempool_ops_dequeue_bulk` begins. -/
def State.ringCall (s : State τ α) (t : τ) (side : Side) (objs : List α) (pc : Pc α) :
    Option (State τ α) :=
  if h : objs.length < 2 ^ 32 then
    (ringStep s.ring (.call t (bulk side objs h))).map fun ring => { s with ring }.goto t pc
  else none

/-- `__mempool_generic_put`. -/
def mempoolGenericPut (u : Setup τ) (s : State τ α) (t : τ) (objs : List α) : Option (State τ α) :=
  if !u.cached t ∨ objs.length > RTE_MEMPOOL_CACHE_MAX_SIZE.toNat then
    s.ringCall t .prod objs .putRing
  else
    ((s.localCache t).add objs).bind fun cache =>
      if cache.len ≥ calcCacheFlushthresh u.pool.cacheSize then
        (s.setCache t cache).ringCall t .prod
          ((cache.objs.take cache.len.toNat).drop u.pool.cacheSize.toNat) .putFlush
      else some (s.setCache t cache)

/-- The end of `__mempool_generic_get`, from a cache with enough objects. -/
def fillResponse (s : State τ α) (t : τ) (cache : RteMempoolCache α) (n : Nat) : State τ α :=
  (s.setCache t ⟨cache.len - .ofNat n, cache.objs⟩).setHeld t
    (s.held t ++ fillFrom cache.objs n (cache.len - 1).toNat)

/-- `__mempool_generic_get`, up to its first use of the ring. -/
def mempoolGenericGet (u : Setup τ) (s : State τ α) (t : τ) (objTable : List α) :
    Option (State τ α) :=
  let n : UInt32 := .ofNat objTable.length
  let cache := s.localCache t
  if !u.cached t ∨ n ≥ u.pool.cacheSize then s.ringCall t .cons objTable (.getRing objTable)
  else if cache.len < n then
    let req := n + (u.pool.cacheSize - cache.len)
    if cache.len.toNat + req.toNat ≤ cache.objs.length then
      s.ringCall t .cons ((cache.objs.drop cache.len.toNat).take req.toNat) (.getBackfill objTable)
    else none
  else some (fillResponse s t cache objTable.length)

/-- `rte_mempool_cache_flush`. -/
def rteMempoolCacheFlush (u : Setup τ) (s : State τ α) (t : τ) : Option (State τ α) :=
  let cache := s.localCache t
  if !u.cached t ∨ cache.len = 0 then some s
  else s.ringCall t .prod (cache.objs.take cache.len.toNat) .cacheFlush

/-- What follows a use of the ring; the answer of an enqueue is not looked at. -/
def resume (u : Setup τ) (s : State τ α) (t : τ) (n : UInt32) (objs : List α) : Option (State τ α) :=
  let cache := s.localCache t
  match s.pc t with
  | .ready => none
  | .putFlush => some ((s.setCache t ⟨u.pool.cacheSize, cache.objs⟩).goto t .ready)
  | .putRing => some (s.goto t .ready)
  | .cacheFlush => some ((s.setCache t ⟨0, cache.objs⟩).goto t .ready)
  | .getBackfill objTable =>
    if n = 0 then s.ringCall t .cons objTable (.getRing objTable)
    else (cache.add objs).map fun cache => (fillResponse s t cache objTable.length).goto t .ready
  | .getRing _ =>
    if n = 0 then some (s.goto t .ready)
    else some ((s.setHeld t (s.held t ++ objs)).goto t .ready)

def poolStep [DecidableEq α] (u : Setup τ) (s : State τ α) : Action τ α → Option (State τ α)
  | .put t objs rest =>
    match s.pc t with
    | .ready =>
      if (objs ++ rest).Perm (s.held t) then mempoolGenericPut u (s.setHeld t rest) t objs else none
    | _ => none
  | .get t objTable =>
    match s.pc t with
    | .ready => if objTable.length < 2 ^ 32 then mempoolGenericGet u s t objTable else none
    | _ => none
  | .cacheFlush t =>
    match s.pc t with
    | .ready => rteMempoolCacheFlush u s t
    | _ => none
  | .ring t =>
    match s.pc t with
    | .ready => none
    | _ => (ringStep s.ring (.step t)).map fun ring => { s with ring }
  | .resume t =>
    match s.ring.pc t with
    | .idle n objs => resume u s t n objs
    | _ => none

end Pixelflut.Dpdk.Mempool

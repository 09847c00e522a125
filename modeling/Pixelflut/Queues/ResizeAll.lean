import Pixelflut.Lib.Transition
import Pixelflut.Framebuffer.Basic
import Pixelflut.Queues.Shutdown

/-!
# `resize_cb`: one job for each framebuffer

`workqueue_init` counts the queues, `get_numa_node` stamps a node number into a
framebuffer, and `workqueue_enqueue` compares the two.

* `running`: what happens to the queues while the process runs: jobs come and
  are taken off;
* `ready_of_reachable`: all the while queue `i` is the one of node `i`;
* `workqueueEnqueue_spec`, `resizeCb_delivers`, `resizeCb_refused`: what a job,
  and what a list of framebuffers comes to;
* `resize_reaches_all_iff`: every framebuffer is reached exactly when every
  node number is below the number of queues.
-/

namespace Pixelflut.Queues

open Lib.BlockHeap Lib.Transition Framebuffer Workqueue

variable {φ π : Type}

/-! ## `resize_cb` -/

/-- The functions that `resize_cb` hands over. -/
inductive Fn where
  | resizeWqCb
  | resizeWqErr
  | resizeWqCleanup
  deriving DecidableEq

/-- `struct resize_wq_priv`; `fb` is the address of a framebuffer. -/
structure ResizeWqPriv where
  fb : Nat
  size : FbSize
  deriving DecidableEq

/-- `resize_cb` on the list `sdl->cb_private` of framebuffers. `mallocOk` and
`callocOk` are the answers of the two allocations made for a framebuffer. -/
def resizeCb (fbAt : Nat → Fb) (mallocOk callocOk : Nat → Bool) (width height : UInt32)
    (g : Globals Fn ResizeWqPriv) : List Nat → Option (Globals Fn ResizeWqPriv × Int)
  | [] => some (g, 0)
  | fb :: fbs =>
    if !mallocOk fb then some (g, -ENOMEM)
    else do
      let (g, err) ← workqueueEnqueue g (fbAt fb).numaNode ⟨fb, ⟨width, height⟩⟩ .resizeWqCb
        (some .resizeWqErr) (some .resizeWqCleanup) (callocOk fb)
      if err = 0 then resizeCb fbAt mallocOk callocOk width height g fbs else some (g, err)

/-! ## While the process runs -/

/-- The elements of the array. -/
def queues (g : Globals φ π) : List (Wqueue φ π) := (g.workqueues.bind g.heap.block).getD []

/-- The worker of queue `i` takes the first entry off its list. -/
def takeEntry (g : Globals φ π) (i : Nat) : Option (Globals φ π) := do
  let wqueue ← (queues g)[i]?
  if wqueue.entries.isEmpty then none
  else do
    let g ← updateEntries g i List.tail
    some { g with numWorkqueueItems := g.numWorkqueueItems - 1 }

inductive Action (φ π : Type) where
  | enqueue (numaNode : UInt32) (priv : π) (cb : φ) (err cleanup : Option φ) (callocOk : Bool)
  | take (i : Nat)

/-- The queues between `workqueue_init`, which has led to `g₀`, and
`workqueue_deinit`. -/
def running (g₀ : Globals φ π) : System (Globals φ π) (Action φ π) where
  init := g₀
  step
    | g, .enqueue numaNode priv cb err cleanup callocOk =>
      (workqueueEnqueue g numaNode priv cb err cleanup callocOk).map Prod.fst
    | g, .take i => takeEntry g i

/-- The array is there, and its queue `i` is the one of node `i`. -/
structure Ready (g : Globals φ π) (n : Nat) : Prop where
  array : g.workqueues.bind g.heap.block = some (queues g)
  numWorkqueues : g.numWorkqueues = n
  nodes : (queues g).map Wqueue.numaNode = (List.range n).map UInt32.ofNat

theorem Ready.length {g : Globals φ π} {n : Nat} (h : Ready g n) : (queues g).length = n := by
  have hlen := congrArg List.length h.nodes
  rwa [List.length_map, List.length_map, List.length_range] at hlen

theorem Ready.numaNode {g : Globals φ π} {n i : Nat} {q : Wqueue φ π} (h : Ready g n)
    (hq : (queues g)[i]? = some q) : q.numaNode = .ofNat i := by
  obtain ⟨hi, -⟩ := List.getElem?_eq_some_iff.mp hq
  have hnode := congrArg (fun l => l[i]?) h.nodes
  simp only [List.getElem?_map, hq, Option.map_some] at hnode
  rw [List.getElem?_range (h.length ▸ hi), Option.map_some] at hnode
  exact Option.some.inj hnode

/-- An operation on the list of a queue changes that list. -/
theorem Ready.updateEntries {g : Globals φ π} {n i : Nat} (h : Ready g n) (hi : i < n)
    (f : List (WorkqueueEntry φ π) → List (WorkqueueEntry φ π)) :
    ∃ g', updateEntries g i f = some g' ∧ Ready g' n ∧ g'.nextId = g.nextId ∧
      queues g' = (queues g).modify i fun q => { q with entries := f q.entries } := by
  obtain ⟨p, hp, hblock⟩ := Option.bind_eq_some_iff.mp h.array
  have hlt : i < (queues g).length := h.length.symm ▸ hi
  have hload : g.heap.load p i = some (queues g)[i] := by
    rw [Heap.load_of_block hblock, List.getElem?_eq_getElem hlt]
  obtain ⟨heap, hstore, -, hself, -⟩ :=
    Heap.store_spec { (queues g)[i] with entries := f (queues g)[i].entries } hblock hlt
  have harray : g.workqueues.bind heap.block =
      some ((queues g).modify i fun q => { q with entries := f q.entries }) := by
    rw [hp, Option.bind_some, hself, List.modify_eq_set_get _ hlt]
    rfl
  have hqueues : queues { g with heap := heap } =
      (queues g).modify i fun q => { q with entries := f q.entries } := by
    rw [queues, harray, Option.getD_some]
  refine ⟨{ g with heap := heap }, ?_, ⟨?_, h.numWorkqueues, ?_⟩, rfl, hqueues⟩
  · simp only [Queues.updateEntries, hp, hload, hstore, Option.bind_some, Option.bind_eq_bind]
  · rw [hqueues, harray]
  · rw [hqueues, ← h.nodes]
    refine List.ext_getElem? fun j => ?_
    rw [List.getElem?_map, List.getElem?_map, List.getElem?_modify]
    by_cases hij : i = j <;> cases (queues g)[j]? <;> simp [hij]

theorem workqueueEnqueue_spec {g : Globals φ π} {n : Nat} (h : Ready g n) {numaNode : UInt32}
    (hnode : numaNode.toNat < n) (priv : π) (cb : φ) (err cleanup : Option φ) :
    ∃ g', workqueueEnqueue g numaNode priv cb err cleanup true = some (g', 0) ∧ Ready g' n ∧
      queues g' = (queues g).modify numaNode.toNat fun q =>
        { q with entries := q.entries ++ [⟨g.nextId, cb, err, cleanup, priv⟩] } := by
  obtain ⟨g₁, hupdate, h₁, hid, hqueues⟩ :=
    h.updateEntries hnode (· ++ [⟨g.nextId, cb, err, cleanup, priv⟩])
  have hin : ¬numaNode.toNat ≥ g.numWorkqueues := by
    rw [h.numWorkqueues]
    exact Nat.not_le_of_lt hnode
  refine ⟨{ g₁ with
    nextId := g₁.nextId + 1, numWorkqueueItems := g₁.numWorkqueueItems + 1
    trace := g₁.trace ++ [.append ⟨g.nextId, cb, err, cleanup, priv⟩] }, ?_,
    ⟨h₁.array, h₁.numWorkqueues, h₁.nodes⟩, hqueues⟩
  simp [workqueueEnqueue, hin, hupdate]

/-- A node number from the count on is refused. -/
theorem workqueueEnqueue_refused {g : Globals φ π} {n : Nat} (h : Ready g n) {numaNode : UInt32}
    (hnode : n ≤ numaNode.toNat) (priv : π) (cb : φ) (err cleanup : Option φ) (callocOk : Bool) :
    workqueueEnqueue g numaNode priv cb err cleanup callocOk = some (g, -EINVAL) := by
  rw [workqueueEnqueue, if_pos (h.numWorkqueues.symm ▸ hnode)]

/-! ## The queues are those of the nodes -/

theorem Started.ready {g : Globals φ π} {p n : Nat} (h : Started g p n n) : Ready g n := by
  obtain ⟨ws, hblock, hlen⟩ := Option.map_eq_some_iff.mp h.running.size
  have harray : g.workqueues.bind g.heap.block = some ws := by
    rw [h.running.workqueues, Option.bind_some, hblock]
  have hqueues : queues g = ws := by rw [queues, harray, Option.getD_some]
  refine ⟨hqueues.symm ▸ harray, h.running.numWorkqueues, List.ext_getElem ?_ fun i hi hi' => ?_⟩
  · rw [hqueues, List.length_map, List.length_map, List.length_range, hlen]
  · have hload := h.started i (by simpa using hi')
    rw [Heap.load_of_block hblock] at hload
    obtain ⟨hlt, hi_eq⟩ := List.getElem?_eq_some_iff.mp hload
    simp [hqueues, hi_eq, startedQueue]

/-- **Behind a successful `workqueue_init` the queues are those of the nodes**,
whatever comes to them and is taken off. -/
theorem ready_of_reachable {T : Topology} {callocOk : Bool} {threadErr : Nat → Int}
    {g₀ g : Globals φ π} (hinit : workqueueInit T callocOk threadErr .start = some (g₀, 0))
    (hg : (running g₀).Reachable g) : Ready g T.numWorkqueues := by
  refine hg.invariant (P := fun g => Ready g T.numWorkqueues) (started_of_init hinit).ready ?_
  intro g a g' _ h _ hstep
  cases a with
  | enqueue numaNode priv cb err cleanup callocOk =>
    obtain ⟨⟨g₁, e⟩, hcall, rfl⟩ := Option.map_eq_some_iff.mp hstep
    by_cases hnode : numaNode.toNat < T.numWorkqueues
    · cases callocOk with
      | false =>
        have hin : ¬numaNode.toNat ≥ g.numWorkqueues := by
          rw [h.numWorkqueues]
          exact Nat.not_le_of_lt hnode
        simp [workqueueEnqueue, hin] at hcall
        rw [← hcall.1]
        exact h
      | true =>
        obtain ⟨g₂, hspec, h₂, -⟩ := workqueueEnqueue_spec h hnode priv cb err cleanup
        rw [hcall] at hspec
        cases hspec
        exact h₂
    · rw [workqueueEnqueue_refused h (Nat.le_of_not_lt hnode)] at hcall
      cases hcall
      exact h
  | take i =>
    obtain ⟨q, hq, htake⟩ := Option.bind_eq_some_iff.mp hstep
    have hi : i < T.numWorkqueues := h.length ▸ (List.getElem?_eq_some_iff.mp hq).1
    obtain ⟨g₁, hupdate, h₁, -, -⟩ := h.updateEntries hi List.tail
    cases hempty : q.entries.isEmpty
    · simp [hempty, hupdate] at htake
      subst htake
      exact ⟨h₁.array, h₁.numWorkqueues, h₁.nodes⟩
    · simp [hempty] at htake

/-! ## Delivering the jobs -/

/-- What an entry asks a worker to do. -/
def call (entry : WorkqueueEntry φ π) : φ × Option φ × Option φ × π :=
  (entry.cb, entry.err, entry.cleanup, entry.priv)

/-- The job of `resize_cb` for a framebuffer. -/
def resizeCall (width height : UInt32) (fb : Nat) : Fn × Option Fn × Option Fn × ResizeWqPriv :=
  (.resizeWqCb, some .resizeWqErr, some .resizeWqCleanup, ⟨fb, ⟨width, height⟩⟩)

/-- Between `g` and `g'` each framebuffer of the list has got one job, in the
queue of its node, and the jobs of a queue are in the order of the list.
Nothing else has changed in the queues. -/
structure Delivered (fbAt : Nat → Fb) (width height : UInt32) (fbs : List Nat)
    (g g' : Globals Fn ResizeWqPriv) : Prop where
  length : (queues g').length = (queues g).length
  appended : ∀ (i : Nat) (q : Wqueue Fn ResizeWqPriv), (queues g)[i]? = some q →
    ∃ entries : List (WorkqueueEntry Fn ResizeWqPriv),
      (queues g')[i]? = some { q with entries := q.entries ++ entries } ∧
      entries.map call =
        (fbs.filter fun fb => (fbAt fb).numaNode = q.numaNode).map (resizeCall width height)
  reached : ∀ fb ∈ fbs, ∃! i : Nat, ((queues g)[i]?).map Wqueue.numaNode = some (fbAt fb).numaNode

variable {fbAt : Nat → Fb} {width height : UInt32} {n : Nat}

theorem ofNat_eq_iff {numaNode : UInt32} {i : Nat} (hi : i < 2 ^ 32) :
    numaNode = .ofNat i ↔ i = numaNode.toNat := by
  rw [← UInt32.toNat_inj, UInt32.toNat_ofNat_of_lt' hi]
  exact eq_comm

/-- One queue is that of the node. -/
theorem Ready.reached {g : Globals φ π} (h : Ready g n) (hn : n < 2 ^ 32) {numaNode : UInt32}
    (hnode : numaNode.toNat < n) :
    ∃! i : Nat, ((queues g)[i]?).map Wqueue.numaNode = some numaNode := by
  have hlt : numaNode.toNat < (queues g).length := h.length.symm ▸ hnode
  refine ⟨numaNode.toNat, ?_, fun j hj => ?_⟩
  · have hq := List.getElem?_eq_getElem hlt
    show ((queues g)[numaNode.toNat]?).map Wqueue.numaNode = some numaNode
    rw [hq, Option.map_some, h.numaNode hq, UInt32.ofNat_toNat]
  · obtain ⟨q, hq, rfl⟩ := Option.map_eq_some_iff.mp hj
    obtain ⟨hj', -⟩ := List.getElem?_eq_some_iff.mp hq
    exact (ofNat_eq_iff (by rw [h.length] at hj'; omega)).mp (h.numaNode hq)

/-- **`resize_cb` delivers**, when the node numbers are in range. -/
theorem resizeCb_delivers (fbs : List Nat) {g : Globals Fn ResizeWqPriv} (h : Ready g n)
    (hn : n < 2 ^ 32) (hnodes : ∀ fb ∈ fbs, (fbAt fb).numaNode.toNat < n) :
    ∃ g', resizeCb fbAt (fun _ => true) (fun _ => true) width height g fbs = some (g', 0) ∧
      Delivered fbAt width height fbs g g' := by
  induction fbs generalizing g with
  | nil =>
    refine ⟨g, rfl, rfl, fun i q hq => ⟨[], by simpa using hq, rfl⟩, fun fb hfb => ?_⟩
    cases hfb
  | cons fb fbs ih =>
    have hnode := hnodes fb (List.mem_cons_self ..)
    obtain ⟨g₁, henqueue, h₁, hqueues⟩ := workqueueEnqueue_spec h hnode ⟨fb, ⟨width, height⟩⟩
      Fn.resizeWqCb (some .resizeWqErr) (some .resizeWqCleanup)
    obtain ⟨g', hrest, hdelivered⟩ := ih h₁ fun fb' hfb' => hnodes fb' (List.mem_cons_of_mem _ hfb')
    refine ⟨g', by simp [resizeCb, henqueue, hrest], ?_, fun i q hq => ?_, fun fb' hfb' =>
      h.reached hn (hnodes fb' hfb')⟩
    · rw [hdelivered.length, hqueues, List.length_modify]
    · have hi : i < 2 ^ 32 := by
        obtain ⟨hlt, -⟩ := List.getElem?_eq_some_iff.mp hq
        rw [h.length] at hlt
        omega
      have hmine : (fbAt fb).numaNode = q.numaNode ↔ i = (fbAt fb).numaNode.toNat := by
        rw [h.numaNode hq, ofNat_eq_iff hi]
      by_cases hhere : i = (fbAt fb).numaNode.toNat
      · -- the job is the next one of this queue
        obtain ⟨entries, hentries, hcalls⟩ := hdelivered.appended i
          { q with entries := q.entries ++ [⟨g.nextId, .resizeWqCb, some .resizeWqErr,
            some .resizeWqCleanup, ⟨fb, ⟨width, height⟩⟩⟩] }
          (by rw [hqueues, ← hhere, List.getElem?_modify_eq, hq]; rfl)
        refine ⟨_ :: entries, by rw [hentries, List.append_assoc]; rfl, ?_⟩
        rw [List.map_cons, hcalls, List.filter_cons_of_pos, List.map_cons]
        · rfl
        · exact decide_eq_true (hmine.mpr hhere)
      · have hq₁ : (queues g₁)[i]? = some q := by
          rw [hqueues, List.getElem?_modify_ne _ _ (Ne.symm hhere), hq]
        obtain ⟨entries, hentries, hcalls⟩ := hdelivered.appended i q hq₁
        refine ⟨entries, hentries, ?_⟩
        rw [hcalls, List.filter_cons_of_neg]
        simpa [hmine] using hhere

/-- A node number out of range is an error. -/
theorem resizeCb_in_range (fbs : List Nat) {g g' : Globals Fn ResizeWqPriv} (h : Ready g n)
    (hcall : resizeCb fbAt (fun _ => true) (fun _ => true) width height g fbs = some (g', 0)) :
    ∀ fb ∈ fbs, (fbAt fb).numaNode.toNat < n := by
  induction fbs generalizing g with
  | nil => simp
  | cons fb fbs ih =>
    by_cases hnode : (fbAt fb).numaNode.toNat < n
    · obtain ⟨g₁, henqueue, h₁, -⟩ := workqueueEnqueue_spec h hnode ⟨fb, ⟨width, height⟩⟩
        Fn.resizeWqCb (some .resizeWqErr) (some .resizeWqCleanup)
      have hrest := ih h₁ (by simpa [resizeCb, henqueue] using hcall)
      intro fb' hfb'
      rcases List.mem_cons.mp hfb' with rfl | hmem
      · exact hnode
      · exact hrest fb' hmem
    · have hrefused := workqueueEnqueue_refused h (Nat.le_of_not_lt hnode) ⟨fb, ⟨width, height⟩⟩
        Fn.resizeWqCb (some .resizeWqErr) (some .resizeWqCleanup) true
      simp [resizeCb, hrefused, EINVAL] at hcall

/-- **A resize reaches every framebuffer exactly when every node number is below
the number of queues.** That number is the highest node number when
`numa_available()` is not zero, be it an error or not, and else one. -/
theorem resize_reaches_all_iff {T : Topology} {callocOk : Bool} {threadErr : Nat → Int}
    {g₀ g : Globals Fn ResizeWqPriv}
    (hinit : workqueueInit T callocOk threadErr .start = some (g₀, 0))
    (hg : (running g₀).Reachable g) (fbAt : Nat → Fb) (fbs : List Nat) (width height : UInt32) :
    (∃ g', resizeCb fbAt (fun _ => true) (fun _ => true) width height g fbs = some (g', 0) ∧
        Delivered fbAt width height fbs g g') ↔
      ∀ fb ∈ fbs, (fbAt fb).numaNode.toNat <
        if T.numaAvailable ≠ 0 then T.numaMaxNode else 1 := by
  have h := ready_of_reachable hinit hg
  constructor
  · rintro ⟨g', hcall, -⟩
    exact resizeCb_in_range fbs h hcall
  · have hn : T.numWorkqueues < 2 ^ 32 := by
      have hmax := T.maxNode_lt
      rw [Topology.numWorkqueues]
      split <;> omega
    exact fun hnodes => resizeCb_delivers fbs h hn hnodes

/-- On a machine with two nodes, the resize reaches a framebuffer on node 0 ... -/
theorem resize_reaches_node_zero :
    ∃ g₀ : Globals Fn ResizeWqPriv,
      workqueueInit ⟨0, 1, by decide⟩ true (fun _ => 0) .start = some (g₀, 0) ∧
      ∃ g', resizeCb (fun _ => ⟨⟨1, 1⟩, 0, 0, 0, 0⟩) (fun _ => true) (fun _ => true) 2 2 g₀ [7] =
          some (g', 0) ∧
        Delivered (fun _ => ⟨⟨1, 1⟩, 0, 0, 0, 0⟩) 2 2 [7] g₀ g' := by
  obtain ⟨g₀, hinit, -⟩ :=
    workqueueInit_succeeds (φ := Fn) (π := ResizeWqPriv) ⟨0, 1, by decide⟩ fun _ _ => rfl
  exact ⟨g₀, hinit, (resize_reaches_all_iff hinit .init _ [7] 2 2).mpr (by decide)⟩

/-- ... but not one on node 1. -/
theorem resize_misses_node_one :
    ∃ g₀ : Globals Fn ResizeWqPriv,
      workqueueInit ⟨0, 1, by decide⟩ true (fun _ => 0) .start = some (g₀, 0) ∧
      ¬∃ g', resizeCb (fun _ => ⟨⟨1, 1⟩, 0, 1, 0, 0⟩) (fun _ => true) (fun _ => true) 2 2 g₀ [7] =
          some (g', 0) ∧
        Delivered (fun _ => ⟨⟨1, 1⟩, 0, 1, 0, 0⟩) 2 2 [7] g₀ g' := by
  refine ⟨_, rfl, ?_⟩
  rintro ⟨g', hcall, -⟩
  cases hcall

end Pixelflut.Queues

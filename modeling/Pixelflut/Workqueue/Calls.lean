import Pixelflut.Workqueue.Cleanup

/-!
# The calls that a queue makes

What one step of the queue adds to the trace, read as calls of the function
pointers of its entries.

* `Move.cleaned_cases`: a step calls `cleanup` once at most, and only for an
  entry that has not been cleaned up before;
* `Move.called_eq`: the results of callbacks are those that the worker reports;
* `Move.known_cases`: only `workqueue_enqueue` brings in an entry;
* `CallsInOrder`: the callbacks that have returned are those of the removed
  entries in order, but for the one that is running.
-/

namespace Pixelflut.Workqueue

open Function (update)

variable {σ ε φ π : Type}

/-! ## Reading the trace -/

/-- The entries whose `cleanup` has been called. -/
def cleaned (tr : List (Event ε)) : List ε := tr.filterMap fun
  | .cleanup e _ => some e
  | _ => none

/-- The callbacks that have returned, with their results. -/
def called (tr : List (Event ε)) : List (ε × Int) := tr.filterMap fun
  | .cbEnd e r => some (e, r)
  | _ => none

@[simp] theorem cleaned_append (tr tr' : List (Event ε)) :
    cleaned (tr ++ tr') = cleaned tr ++ cleaned tr' := List.filterMap_append

@[simp] theorem called_append (tr tr' : List (Event ε)) :
    called (tr ++ tr') = called tr ++ called tr' := List.filterMap_append

theorem cleanups_eq_count [DecidableEq ε] (e : ε) (tr : List (Event ε)) :
    cleanups e tr = (cleaned tr).count e := by
  induction tr with
  | nil => rfl
  | cons ev tr ih =>
    cases ev <;> simp_all [cleanups, cleaned, List.countP_cons, List.count_cons]

theorem cleaned_cleanupEvents (e : WorkqueueEntry φ π) (err : Int) :
    cleaned (cleanupEvents e err) = if e.cleanup.isSome then [e] else [] := by
  unfold cleanupEvents
  split <;> rfl

theorem called_cons_cleanup (ev : Event (WorkqueueEntry φ π)) (e : WorkqueueEntry φ π)
    (err : Int) : called (ev :: cleanupEvents e err) = called [ev] := by
  have hnone : called (cleanupEvents e err) = [] := by
    unfold cleanupEvents
    split <;> rfl
  rw [← List.singleton_append, called_append, hnone, List.append_nil]

/-! ## What a step adds -/

/-- The callback that the worker is in. -/
def WorkerPc.inCallback : WorkerPc ε → List ε
  | .running e => [e]
  | _ => []

theorem WorkerPc.inCallback_wake (pc : WorkerPc ε) : pc.wake.inCallback = pc.inCallback := by
  cases pc <;> rfl

/-- An entry that has been appended, or that a thread is about to append. -/
def Known (s : State σ ε) (e : ε) : Prop :=
  e ∈ appended s.trace ∨ ∃ t, (s.enqueuer t).unappended = some e

/-- The entry that a request is filled into. -/
def Request.entry (req : Request φ π) (id : Nat) : WorkqueueEntry φ π :=
  ⟨id, req.cb, req.err, req.cleanup, req.priv⟩

/-- What happens to the trace: it grows, and `cleanup` is called for nobody, or
for one entry that was known and untouched. -/
theorem Move.cleaned_cases [DecidableEq φ] [DecidableEq π] {s s' : SpecState φ π}
    {a : Action φ π} (hm : Move s a s') (hledger : Ledger s) (hfresh : Fresh s)
    (hsettle : Settlement s) :
    ∃ evs, s'.trace = s.trace ++ evs ∧ (cleaned evs = [] ∨
      ∃ e, cleaned evs = [e] ∧ e ∈ appended s.trace ∧ cleanups e s.trace = 0) := by
  have hhand : ∀ e, s.worker.hand = [e] → e ∈ appended s.trace := by
    intro e he
    rw [← hledger.conserve]
    refine List.mem_append_left _ ?_
    rw [← hledger.freed_eq, he]
    exact List.mem_append_right _ List.mem_cons_self
  cases hm
  case failAlone r e hw hr hn =>
    refine ⟨_, rfl, ?_⟩
    rw [← List.singleton_append, cleaned_append, cleaned_cleanupEvents]
    split
    · refine .inr ⟨e, rfl, hhand e (by rw [hw]; rfl), ?_⟩
      exact (hsettle.inCall e (by rw [hw]; rfl)).1
    · exact .inl rfl
  case giveUp r e err hw hr =>
    refine ⟨_, rfl, ?_⟩
    rw [← List.singleton_append, cleaned_append, cleaned_cleanupEvents]
    split
    · refine .inr ⟨e, rfl, hhand e (by rw [hw]; rfl), ?_⟩
      exact (hsettle.inCall e (by rw [hw]; rfl)).1
    · exact .inl rfl
  case drain e rest hp he =>
    refine ⟨_, List.append_assoc _ _ _, ?_⟩
    have hmem : e ∈ s.entries := he ▸ List.mem_cons_self
    rw [← List.singleton_append, List.append_assoc, cleaned_append, cleaned_append,
      cleaned_cleanupEvents]
    split
    · refine .inr ⟨e, rfl, ?_, (hsettle.listed e (not_mem_gone hfresh hledger hmem)).1⟩
      rw [← hledger.conserve]
      exact List.mem_append_right _ hmem
    · exact .inl rfl
  -- the other moves call no cleanup
  all_goals first
    | exact ⟨_, rfl, .inl rfl⟩
    | exact ⟨[], (List.append_nil _).symm, .inl rfl⟩

/-- The callback that returns in a step, with its result. -/
def returning (pc : WorkerPc ε) : Action φ π → List (ε × Int)
  | .worker r => pc.inCallback.map fun e => (e, r)
  | _ => []

theorem Move.called_eq {s s' : SpecState φ π} {a : Action φ π} (hm : Move s a s') :
    called s'.trace = called s.trace ++ returning s.worker a := by
  cases hm
  case failAlone r e hw hr hn => rw [called_append, called_cons_cleanup, hw]; rfl
  case giveUp r e err hw hr => rw [called_append, called_cons_cleanup, hw]; rfl
  case drain e rest hp he =>
    rw [called_append, called_append, called_cons_cleanup]
    simp [called, returning]
  -- the other moves add events of one kind each
  all_goals simp [called, returning, WorkerPc.inCallback, *]

/-- Only a call of `workqueue_enqueue` brings in an entry. -/
theorem Move.known_cases {s s' : SpecState φ π} {a : Action φ π} (hm : Move s a s') :
    (∀ e, Known s' e → Known s e) ∨
      ∃ t req, a = .enqueuer t req ∧ s.enqueuer t = .idle ∧
        ∀ e, Known s' e → Known s e ∨ e = req.entry s.nextId := by
  -- a thread that has moved on to `pc`
  have moved : ∀ {t pc e}, (∃ t', (update s.enqueuer t pc t').unappended = some e) →
      pc.unappended = some e ∨ ∃ t', (s.enqueuer t').unappended = some e := by
    rintro t pc e ⟨t', ht'⟩
    rcases update_cases (EnqueuerPc.unappended · = some e) ht' with ⟨-, hmoved⟩ | ⟨-, hold⟩
    · exact .inl hmoved
    · exact .inr ⟨t', hold⟩
  cases hm
  case calloc t req e ht he =>
    refine .inr ⟨t, req, rfl, ht, fun e' he' => ?_⟩
    rcases he' with happended | hun
    · exact .inl (.inl happended)
    · rcases moved hun with hmoved | hold
      · exact .inr ((Option.some.inj hmoved).symm.trans he)
      · exact .inl (.inr hold)
  case acquire t req e ht hl =>
    refine .inl fun e' he' => he'.imp_right fun hun => ?_
    rcases moved hun with hmoved | hold
    · exact ⟨t, by rw [ht]; exact hmoved⟩
    · exact hold
  case append t req e ht =>
    refine .inl fun e' he' => ?_
    rcases he' with happended | hun
    · rw [appended_append, List.mem_append] at happended
      rcases happended with hold | hnew
      · exact .inl hold
      · rw [List.mem_singleton.mp hnew]
        exact .inr ⟨t, by rw [ht]; rfl⟩
    · rcases moved hun with hmoved | hold
      · cases hmoved
      · exact .inr hold
  case release t req e ht =>
    refine .inl fun e' he' => he'.imp_right fun hun => ?_
    rcases moved hun with hmoved | hold
    · cases hmoved
    · exact hold
  case signal t req e ht =>
    refine .inl fun e' he' => he'.imp_right fun hun => ?_
    rcases moved hun with hmoved | hold
    · cases hmoved
    · exact hold
  case failAlone r e hw hr hn =>
    refine .inl fun e' he' => he'.imp_left fun happended => ?_
    rw [appended_append, (accounts_cons_cleanup _ _ _).1] at happended
    simpa [appended] using happended
  case giveUp r e err hw hr =>
    refine .inl fun e' he' => he'.imp_left fun happended => ?_
    rw [appended_append, (accounts_cons_cleanup _ _ _).1] at happended
    simpa [appended] using happended
  case drain e rest hp he =>
    refine .inl fun e' he' => he'.imp_left fun happended => ?_
    rw [appended_append, appended_append, (accounts_cons_cleanup _ _ _).1] at happended
    simpa [appended] using happended
  -- the other moves append nothing and leave the enqueuers alone
  all_goals exact .inl fun e' he' => he'.imp_left fun happended => by simpa [appended] using happended

/-- A known entry stays known. -/
theorem Move.known_mono {s s' : SpecState φ π} {a : Action φ π} (hm : Move s a s')
    {e : WorkqueueEntry φ π} (h : Known s e) : Known s' e := by
  have moved : ∀ {t pc}, (∃ t', (s.enqueuer t').unappended = some e) →
      ((s.enqueuer t).unappended = some e → pc.unappended = some e) →
      ∃ t', (update s.enqueuer t pc t').unappended = some e := by
    rintro t pc ⟨t', ht'⟩ hpc
    refine ⟨t', ?_⟩
    by_cases heq : t' = t
    · subst heq
      rw [Function.update_self]
      exact hpc ht'
    · rw [Function.update_of_ne heq]
      exact ht'
  cases hm
  case calloc t req e' ht he =>
    exact h.imp_right fun hun => moved hun fun hidle => by rw [ht] at hidle; cases hidle
  case acquire t req e' ht hl =>
    exact h.imp_right fun hun => moved hun fun hready => by rw [ht] at hready; exact hready
  case append t req e' ht =>
    rcases h with happended | ⟨t', ht'⟩
    · exact .inl (by rw [appended_append]; exact List.mem_append_left _ happended)
    · by_cases heq : t' = t
      · subst heq
        rw [ht] at ht'
        cases ht'
        exact .inl (by rw [appended_append]; exact List.mem_append_right _ List.mem_cons_self)
      · exact .inr ⟨t', (congrArg _ (Function.update_of_ne heq _ _)).trans ht'⟩
  case release t req e' ht =>
    exact h.imp_right fun hun => moved hun fun hgone => by rw [ht] at hgone; cases hgone
  case signal t req e' ht =>
    exact h.imp_right fun hun => moved hun fun hgone => by rw [ht] at hgone; cases hgone
  -- the other moves leave the enqueuers alone, and the trace grows
  all_goals exact h.imp_left fun happended => by simp [happended]

/-- Only the thread itself moves on in `workqueue_enqueue`. -/
theorem Move.enqueuer_same {s s' : SpecState φ π} {a : Action φ π} (hm : Move s a s') {t : Nat}
    (ha : ∀ req, a ≠ .enqueuer t req) : s'.enqueuer t = s.enqueuer t := by
  have hne : ∀ {t' req}, a = .enqueuer t' req → t ≠ t' := fun {t' req} heq htt => ha req (htt ▸ heq)
  cases hm
  case calloc => exact Function.update_of_ne (hne rfl) _ _
  case acquire => exact Function.update_of_ne (hne rfl) _ _
  case append => exact Function.update_of_ne (hne rfl) _ _
  case release => exact Function.update_of_ne (hne rfl) _ _
  case signal => exact Function.update_of_ne (hne rfl) _ _
  all_goals rfl

/-- The appended entries, and the one that thread `t` is about to append. -/
def line (s : State σ ε) (t : Nat) : List ε := appended s.trace ++ (s.enqueuer t).unappended.toList

theorem known_of_mem_line {s : State σ ε} {t : Nat} {e : ε} (h : e ∈ line s t) : Known s e := by
  rw [line, List.mem_append, Option.mem_toList] at h
  exact h.imp_right fun hun => ⟨t, hun⟩

/-- When no other thread enqueues, a line gets longer in the `calloc` of its thread only. -/
theorem Move.line_cases {s s' : SpecState φ π} {a : Action φ π} (hm : Move s a s') {t : Nat}
    (ha : ∀ t' req, a = .enqueuer t' req → t' = t) :
    line s' t = line s t ∨ ∃ req, a = .enqueuer t req ∧ s.enqueuer t = .idle ∧
      line s' t = line s t ++ [req.entry s.nextId] := by
  cases hm
  case calloc t' req e ht he =>
    obtain rfl := ha t' req rfl
    refine .inr ⟨req, rfl, ht, ?_⟩
    simp [line, ht, he, EnqueuerPc.unappended, Request.entry]
  case acquire t' req e ht hl =>
    obtain rfl := ha t' req rfl
    exact .inl (by simp [line, ht, EnqueuerPc.unappended])
  case append t' req e ht =>
    obtain rfl := ha t' req rfl
    exact .inl (by simp [line, ht, EnqueuerPc.unappended, appended])
  case release t' req e ht =>
    obtain rfl := ha t' req rfl
    exact .inl (by simp [line, ht, EnqueuerPc.unappended])
  case signal t' req e ht =>
    obtain rfl := ha t' req rfl
    exact .inl (by simp [line, ht, EnqueuerPc.unappended])
  case failAlone r e hw hr hn =>
    refine .inl ?_
    rw [line, line, appended_append, (accounts_cons_cleanup _ _ _).1]
    simp [appended]
  case giveUp r e err hw hr =>
    refine .inl ?_
    rw [line, line, appended_append, (accounts_cons_cleanup _ _ _).1]
    simp [appended]
  case drain e rest hp he =>
    refine .inl ?_
    rw [line, line, appended_append, appended_append, (accounts_cons_cleanup _ _ _).1]
    simp [appended]
  -- the other moves append nothing
  all_goals exact .inl (by simp [line, appended])

/-! ## In order -/

/-- The callbacks started have returned, but for the running one. -/
def CallsInOrder (s : SpecState φ π) : Prop :=
  (called s.trace).map Prod.fst ++ s.worker.inCallback = started s.trace

theorem CallsInOrder.move {s s' : SpecState φ π} {a : Action φ π} (h : CallsInOrder s)
    (hm : Move s a s') : CallsInOrder s' := by
  unfold CallsInOrder at h ⊢
  rw [hm.called_eq]
  cases hm
  case failAlone r e hw hr hn =>
    rw [started_append, (accounts_cons_cleanup _ _ _).2.2.1, ← h, hw]
    simp [returning, WorkerPc.inCallback, started]
  case giveUp r e err hw hr =>
    rw [started_append, (accounts_cons_cleanup _ _ _).2.2.1, ← h, hw]
    simp [returning, WorkerPc.inCallback, started]
  case drain e rest hp he =>
    rw [started_append, started_append, (accounts_cons_cleanup _ _ _).2.2.1, ← h]
    simp [returning, started]
  case signal => simpa [returning, WorkerPc.inCallback_wake] using h
  case signalStop => simpa [returning, WorkerPc.inCallback_wake] using h
  -- the other moves start the callback that the worker is then in, or none
  all_goals simp_all [returning, WorkerPc.inCallback, started]

theorem callsInOrder_of_reachable [DecidableEq φ] [DecidableEq π] {a : SpecState φ π}
    (ha : (specQueue φ π).Reachable a) : CallsInOrder a :=
  invariant_of_moves (P := CallsInOrder) rfl (fun _ _ _ _ h _ hm => h.move hm) ha

end Pixelflut.Workqueue

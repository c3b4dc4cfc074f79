import Mathlib.Data.List.Perm.Basic
import Mathlib.Data.List.Count
import Ryklys.Runs
import Ryklys.Tally
import Ryklys.ThreadPool

/-!
# No task is lost, and none runs twice

One invariant over all interleavings of workers and callers (`Inv`): every
task is in one place, the counters count what they are said to, and a queue
with a task has a signal, a caller about to give one, or its own worker still
to look. When nothing can move any more, everything has run.
-/

namespace Ryklys

namespace WorkerPhase

variable {τ : Type}

def held : WorkerPhase τ → List τ
  | popped task _ | invoking task _ => [task]
  | _ => []

def unassigned : WorkerPhase τ → Nat
  | popped _ _ => 1
  | _ => 0

def inFlight : WorkerPhase τ → Nat
  | popped _ _ | invoking _ _ | invoked _ => 1
  | _ => 0

/-- Looks at its own queue again before it waits. -/
def Serving : WorkerPhase τ → Prop
  | popping | popped _ true | invoking _ true | invoked true => True
  | _ => False

theorem held_of_inFlight {p : WorkerPhase τ} (h : p.inFlight = 0) : p.held = [] := by
  cases p <;> first | rfl | cases h

theorem inFlight_of_not_invoked {p : WorkerPhase τ} (h : ∀ own, p ≠ .invoked own) : p.inFlight = p.held.length := by
  cases p with
  | invoked own => exact absurd rfl (h own)
  | _ => rfl

end WorkerPhase

namespace EnqueuePhase

variable {τ : Type} {n : Nat}

def held : EnqueuePhase τ n → List τ
  | assigned task _ | unassigned task _ | resetting task _ | pushing task _ => [task]
  | _ => []

def countedUnassigned : EnqueuePhase τ n → Nat
  | unassigned _ _ | resetting _ _ | pushing _ _ => 1
  | _ => 0

/-- The task of a call that has not come to the counter of tasks in flight. -/
def uncounted : EnqueuePhase τ n → List τ
  | assigned task _ | unassigned task _ => [task]
  | _ => []

def countedInFlight : EnqueuePhase τ n → Nat
  | resetting _ _ | pushing _ _ => 1
  | _ => 0

theorem length_held (p : EnqueuePhase τ n) : p.held.length = p.uncounted.length + p.countedInFlight := by
  cases p <;> rfl

theorem held_of_uncounted {p : EnqueuePhase τ n} (h : p.countedInFlight = 0) : p.held = p.uncounted := by
  cases p <;> first | rfl | cases h

end EnqueuePhase

namespace ThreadPool

variable {n : Nat} {ι τ : Type} [DecidableEq τ]

/-! ## What a worker may do -/

/-- What a step of worker `id` to the phase `p` may do to the rest. -/
structure WorkerMove (s s' : ThreadPool n ι τ) (id : Fin n) (p : WorkerPhase τ) : Prop where
  worker : s'.worker = Function.update s.worker id p
  call : s'.call = s.call
  enqueued : s'.enqueued = s.enqueued
  dropped : s'.dropped = s.dropped
  priority : s'.priorityQueue.Perm s.priorityQueue
  placed : ∀ t, s'.invoked.count t + Tally.total (List.count t) s'.tasks + p.held.count t =
    s.invoked.count t + Tally.total (List.count t) s.tasks + (s.worker id).held.count t
  unassigned : s'.unassignedTasks + (Tally.total List.length s.tasks + (s.worker id).unassigned : Nat) =
    s.unassignedTasks + (Tally.total List.length s'.tasks + p.unassigned : Nat)
  inFlight : s'.inFlightTasks + (Tally.total List.length s.tasks + (s.worker id).inFlight : Nat) =
    s.inFlightTasks + (Tally.total List.length s'.tasks + p.inFlight : Nat)
  others : ∀ i, s'.tasks i ≠ [] → s.tasks i ≠ [] ∧ (i ≠ id → s'.signal i = s.signal i)
  own : s'.tasks id ≠ [] → p.Serving ∨ s'.signal id = s.signal id ∧ ¬ (s.worker id).Serving
  complete : p ≠ .acquiring ∨ s'.inFlightTasks ≠ 0 ∨ s'.threadsComplete = true

/-- A step that leaves the queues and the signals alone. -/
structure WorkerTurn (s s' : ThreadPool n ι τ) (id : Fin n) (p : WorkerPhase τ) : Prop where
  same : s' = { s with worker := Function.update s.worker id p, priorityQueue := s'.priorityQueue,
                       unassignedTasks := s'.unassignedTasks, inFlightTasks := s'.inFlightTasks,
                       threadsComplete := s'.threadsComplete, invoked := s'.invoked }
  priority : s'.priorityQueue.Perm s.priorityQueue
  placed : ∀ t, s'.invoked.count t + p.held.count t = s.invoked.count t + (s.worker id).held.count t
  unassigned : s'.unassignedTasks + (s.worker id).unassigned = s.unassignedTasks + p.unassigned
  inFlight : s'.inFlightTasks + (s.worker id).inFlight = s.inFlightTasks + p.inFlight
  own : s.tasks id ≠ [] → (s.worker id).Serving → p.Serving
  complete : p ≠ .acquiring ∨ s'.inFlightTasks ≠ 0 ∨ s'.threadsComplete = true

variable {s s' : ThreadPool n ι τ} {id : Fin n} {p : WorkerPhase τ}

theorem WorkerTurn.move (id : Fin n) (p : WorkerPhase τ) (m : WorkerTurn s s' id p) : WorkerMove s s' id p where
  worker := by rw [m.same]
  call := by rw [m.same]
  enqueued := by rw [m.same]
  dropped := by rw [m.same]
  priority := m.priority
  placed := fun t => by
    have hp := m.placed t
    have htasks : s'.tasks = s.tasks := by rw [m.same]
    rw [htasks]
    omega
  unassigned := by
    have hp := m.unassigned
    have htasks : s'.tasks = s.tasks := by rw [m.same]
    rw [htasks]
    omega
  inFlight := by
    have hp := m.inFlight
    have htasks : s'.tasks = s.tasks := by rw [m.same]
    rw [htasks]
    omega
  others := fun i hi => by
    rw [m.same] at hi
    refine ⟨hi, fun _ => ?_⟩
    rw [m.same]
  own := fun hi => by
    rw [m.same] at hi
    by_cases hs : (s.worker id).Serving
    · exact .inl (m.own hi hs)
    · refine .inr ⟨?_, hs⟩
      rw [m.same]
  complete := m.complete

/-- A task that leaves a queue for the worker. -/
theorem worker_take {j : Fin n} {task : τ} {own : Bool} {rest : List τ} (hw : (s.worker id).held = [])
    (hu : (s.worker id).unassigned = 0) (hf : (s.worker id).inFlight = 0)
    (hp : (s.tasks j).Perm (task :: rest)) (hs : own = true ∨ ¬ (s.worker id).Serving) :
    WorkerMove s { s with tasks := Function.update s.tasks j rest,
                          worker := Function.update s.worker id (.popped task own) } id (.popped task own) where
  worker := rfl
  call := rfl
  enqueued := rfl
  dropped := rfl
  priority := List.Perm.refl _
  placed := fun t => by
    have ht := Tally.total_update (List.count t) s.tasks j rest
    rw [hp.count_eq t, List.count_cons] at ht
    rw [hw, WorkerPhase.held, List.count_nil, List.count_singleton]
    simp only at ht ⊢
    omega
  unassigned := by
    have ht := Tally.total_update List.length s.tasks j rest
    rw [hp.length_eq, List.length_cons] at ht
    rw [hu, WorkerPhase.unassigned]
    simp only
    omega
  inFlight := by
    have ht := Tally.total_update List.length s.tasks j rest
    rw [hp.length_eq, List.length_cons] at ht
    rw [hf, WorkerPhase.inFlight]
    simp only
    omega
  others := fun i hi => by
    refine ⟨?_, fun _ => rfl⟩
    by_cases hij : i = j
    · subst hij
      exact fun hn => List.cons_ne_nil task rest (List.nil_perm.mp (hn ▸ hp))
    · dsimp only at hi
      rwa [Function.update_of_ne hij] at hi
  own := fun _ => by
    rcases hs with rfl | hs
    · exact .inl trivial
    · exact .inr ⟨rfl, hs⟩
  complete := .inl fun h => by cases h

/-! ## The invariant -/

variable [Fintype ι]

/-- What is in the queues, with the workers and with the callers. -/
def tally (s : ThreadPool n ι τ) (queue : List τ → Nat) (worker : WorkerPhase τ → Nat)
    (call : EnqueuePhase τ n → Nat) : Nat :=
  Tally.total queue s.tasks + Tally.total worker s.worker + Tally.total call s.call

structure Inv (s : ThreadPool n ι τ) : Prop where
  placed : ∀ t, s.enqueued.count t = s.invoked.count t + s.dropped.count t +
    s.tally (List.count t) (fun p => p.held.count t) (fun p => p.held.count t)
  unassigned : s.unassignedTasks = s.tally List.length WorkerPhase.unassigned EnqueuePhase.countedUnassigned
  inFlight : s.inFlightTasks = s.tally List.length WorkerPhase.inFlight EnqueuePhase.countedInFlight
  priority : s.priorityQueue.Perm (List.finRange n)
  served : ∀ i, s.tasks i ≠ [] → 0 < s.signal i ∨ (∃ c, s.call c = .releasing i) ∨ (s.worker i).Serving
  complete : s.inFlightTasks = 0 → s.threadsComplete = true ∨ s.invoked = [] ∨ ∃ i, s.worker i ≠ .acquiring
  dropped : 0 < n → s.dropped = []

theorem inv_new : (new : ThreadPool n ι τ).Inv where
  placed := fun t => by simp [new, tally, Tally.total, WorkerPhase.held, EnqueuePhase.held]
  unassigned := by simp [new, tally, Tally.total, WorkerPhase.unassigned, EnqueuePhase.countedUnassigned]
  inFlight := by simp [new, tally, Tally.total, WorkerPhase.inFlight, EnqueuePhase.countedInFlight]
  priority := List.Perm.refl _
  served := fun i hi => absurd rfl hi
  complete := fun _ => .inr (.inl rfl)
  dropped := fun _ => rfl

/-! ## Steps of a worker -/

theorem Inv.worker_move (h : s.Inv) (id : Fin n) (p : WorkerPhase τ) (m : WorkerMove s s' id p) : s'.Inv := by
  have htally : ∀ queue worker (call : EnqueuePhase τ n → Nat),
      s'.tally queue worker call + Tally.total queue s.tasks + worker (s.worker id) =
        s.tally queue worker call + Tally.total queue s'.tasks + worker p := by
    intro queue worker call
    have hu := Tally.total_update worker s.worker id p
    rw [tally, tally, m.worker, m.call]
    omega
  refine ⟨fun t => ?_, ?_, ?_, m.priority.trans h.priority, fun i hi => ?_, fun hz => ?_, ?_⟩
  · have hp := h.placed t
    have hm := m.placed t
    have ht := htally (List.count t) (fun p => p.held.count t) (fun p => p.held.count t)
    rw [m.enqueued, m.dropped]
    omega
  · have hp := h.unassigned
    have hm := m.unassigned
    have ht := htally List.length WorkerPhase.unassigned EnqueuePhase.countedUnassigned
    omega
  · have hp := h.inFlight
    have hm := m.inFlight
    have ht := htally List.length WorkerPhase.inFlight EnqueuePhase.countedInFlight
    omega
  · obtain ⟨hold, hsignal⟩ := m.others i hi
    rw [m.call, m.worker]
    by_cases hid : i = id
    · subst hid
      rw [Function.update_self]
      rcases m.own hi with hp | ⟨hs, hns⟩
      · exact .inr (.inr hp)
      · rw [hs]
        rcases h.served i hold with h1 | h1 | h1
        · exact .inl h1
        · exact .inr (.inl h1)
        · exact absurd h1 hns
    · rw [hsignal hid, Function.update_of_ne hid]
      exact h.served i hold
  · rcases m.complete with hp | hp | hp
    · refine .inr (.inr ⟨id, ?_⟩)
      rw [m.worker, Function.update_self]
      exact hp
    · exact absurd hz hp
    · exact .inl hp
  · rw [m.dropped]
    exact h.dropped

theorem Inv.workerStep (h : s.Inv) (id : Fin n) : (s.workerStep id).Inv := by
  rw [ThreadPool.workerStep]
  cases hw : s.worker id with
  | acquiring =>
    dsimp only
    split
    · refine h.worker_move id .popping
        ⟨rfl, rfl, rfl, rfl, .refl _, ?_, ?_, ?_, ?_, fun _ => .inl trivial,
        .inl fun h => by cases h⟩
      · intro t
        rw [hw]
        rfl
      · rw [hw]
        rfl
      · rw [hw]
        rfl
      · exact fun i hi => ⟨hi, fun hid => Function.update_of_ne hid ..⟩
    · exact h
  | popping =>
    dsimp only
    split
    · rename_i hnil
      refine h.worker_move _ _ (WorkerTurn.move id (.stealing 1)
        ⟨rfl, .refl _, ?_, ?_, ?_, fun hne => absurd hnil hne, .inl fun h => by cases h⟩)
      all_goals simp [hw, WorkerPhase.held, WorkerPhase.unassigned, WorkerPhase.inFlight]
    · rename_i task rest hcons
      refine h.worker_move _ _ (worker_take ?_ ?_ ?_ (by rw [hcons]) (.inl rfl))
      all_goals rw [hw]; rfl
  | popped task own =>
    refine h.worker_move _ _ (WorkerTurn.move id (.invoking task own)
      ⟨rfl, .refl _, ?_, ?_, ?_, ?_, .inl fun h => by cases h⟩)
    · simp [hw, WorkerPhase.held]
    · simp [hw, WorkerPhase.unassigned]
    · simp [hw, WorkerPhase.inFlight]
    · cases own <;> simp [hw, WorkerPhase.Serving]
  | invoking task own =>
    refine h.worker_move _ _ (WorkerTurn.move id (.invoked own)
      ⟨rfl, .refl _, ?_, ?_, ?_, ?_, .inl fun h => by cases h⟩)
    · simp [hw, WorkerPhase.held]
    · simp [hw, WorkerPhase.unassigned]
    · simp [hw, WorkerPhase.inFlight]
    · cases own <;> simp [hw, WorkerPhase.Serving]
  | invoked own =>
    dsimp only
    refine h.worker_move _ _ (WorkerTurn.move id (if own then .popping else .checking)
      ⟨rfl, .refl _, ?_, ?_, ?_, ?_, .inl ?_⟩)
    all_goals
      cases own <;> simp [hw, WorkerPhase.held, WorkerPhase.unassigned, WorkerPhase.inFlight, WorkerPhase.Serving]
  | stealing j =>
    dsimp only
    split
    · cases hl : (s.tasks (victim id j)).getLast? with
      | none =>
        refine h.worker_move _ _ (WorkerTurn.move id (.stealing (j + 1))
          ⟨rfl, .refl _, ?_, ?_, ?_, ?_, .inl fun h => by cases h⟩)
        all_goals simp [hw, WorkerPhase.held, WorkerPhase.unassigned, WorkerPhase.inFlight, WorkerPhase.Serving]
      | some task =>
        have hlast : (s.tasks (victim id j)).dropLast ++ [task] = s.tasks (victim id j) :=
          List.dropLast_append_getLast? task hl
        refine h.worker_move _ _ (worker_take ?_ ?_ ?_ ?_ (.inr ?_))
        · rw [hw]
          rfl
        · rw [hw]
          rfl
        · rw [hw]
          rfl
        · exact (List.Perm.of_eq hlast.symm).trans (List.perm_append_singleton task _)
        · rw [hw]
          exact fun h => h
    · refine h.worker_move _ _ (WorkerTurn.move id .checking
        ⟨rfl, .refl _, ?_, ?_, ?_, ?_, .inl fun h => by cases h⟩)
      all_goals simp [hw, WorkerPhase.held, WorkerPhase.unassigned, WorkerPhase.inFlight, WorkerPhase.Serving]
  | checking =>
    dsimp only
    by_cases hu : 0 < s.unassignedTasks
    · rw [if_pos hu]
      refine h.worker_move _ _ (WorkerTurn.move id .popping
        ⟨rfl, .refl _, ?_, ?_, ?_, ?_, .inl fun h => by cases h⟩)
      all_goals simp [hw, WorkerPhase.held, WorkerPhase.unassigned, WorkerPhase.inFlight, WorkerPhase.Serving]
    · rw [if_neg hu]
      refine h.worker_move _ _ (WorkerTurn.move id .rotating
        ⟨rfl, .refl _, ?_, ?_, ?_, ?_, .inl fun h => by cases h⟩)
      all_goals simp [hw, WorkerPhase.held, WorkerPhase.unassigned, WorkerPhase.inFlight, WorkerPhase.Serving]
  | rotating =>
    have hmem : id ∈ s.priorityQueue := h.priority.mem_iff.mpr (List.mem_finRange id)
    refine h.worker_move _ _ (WorkerTurn.move id .testing
      ⟨rfl, (List.perm_cons_erase hmem).symm, ?_, ?_, ?_, ?_, .inl fun h => by cases h⟩)
    all_goals simp [hw, WorkerPhase.held, WorkerPhase.unassigned, WorkerPhase.inFlight, WorkerPhase.Serving]
  | testing =>
    dsimp only
    by_cases hz : s.inFlightTasks = 0
    · rw [if_pos hz]
      refine h.worker_move _ _ (WorkerTurn.move id .completing
        ⟨rfl, .refl _, ?_, ?_, ?_, ?_, .inl fun h => by cases h⟩)
      all_goals simp [hw, WorkerPhase.held, WorkerPhase.unassigned, WorkerPhase.inFlight, WorkerPhase.Serving]
    · rw [if_neg hz]
      refine h.worker_move _ _ (WorkerTurn.move id .acquiring
        ⟨rfl, .refl _, ?_, ?_, ?_, ?_, .inr (.inl hz)⟩)
      all_goals simp [hw, WorkerPhase.held, WorkerPhase.unassigned, WorkerPhase.inFlight, WorkerPhase.Serving]
  | completing =>
    refine h.worker_move _ _ (WorkerTurn.move id .acquiring
      ⟨rfl, .refl _, ?_, ?_, ?_, ?_, .inr (.inr rfl)⟩)
    all_goals simp [hw, WorkerPhase.held, WorkerPhase.unassigned, WorkerPhase.inFlight, WorkerPhase.Serving]

/-! ## Steps of a caller -/

variable [DecidableEq ι] {sem : BinarySemaphore} {c : ι} {q : EnqueuePhase τ n}

omit [Fintype ι] in
/-- What a step of caller `c` to the phase `q` may do to the rest. -/
structure CallMove (s s' : ThreadPool n ι τ) (c : ι) (q : EnqueuePhase τ n) : Prop where
  call : s'.call = Function.update s.call c q
  worker : s'.worker = s.worker
  invoked : s'.invoked = s.invoked
  priority : s'.priorityQueue.Perm s.priorityQueue
  placed : ∀ t, s'.enqueued.count t + s.dropped.count t + Tally.total (List.count t) s.tasks + (s.call c).held.count t =
    s.enqueued.count t + s'.dropped.count t + Tally.total (List.count t) s'.tasks + q.held.count t
  unassigned : s'.unassignedTasks + (Tally.total List.length s.tasks + (s.call c).countedUnassigned : Nat) =
    s.unassignedTasks + (Tally.total List.length s'.tasks + q.countedUnassigned : Nat)
  inFlight : s'.inFlightTasks + (Tally.total List.length s.tasks + (s.call c).countedInFlight : Nat) =
    s.inFlightTasks + (Tally.total List.length s'.tasks + q.countedInFlight : Nat)
  pushed : ∀ i, s'.tasks i ≠ [] → s.tasks i ≠ [] ∨ q = .releasing i
  signal : ∀ i, s.signal i ≤ s'.signal i ∨ 0 < s'.signal i
  released : ∀ i, s.call c = .releasing i → 0 < s'.signal i
  complete : q.countedInFlight = 1 ∨ s'.threadsComplete = s.threadsComplete ∧ s'.inFlightTasks = s.inFlightTasks
  dropped : 0 < n → s'.dropped = s.dropped

theorem Inv.call_move (h : s.Inv) (m : CallMove s s' c q) : s'.Inv := by
  have htally : ∀ queue (worker : WorkerPhase τ → Nat) call,
      s'.tally queue worker call + Tally.total queue s.tasks + call (s.call c) =
        s.tally queue worker call + Tally.total queue s'.tasks + call q := by
    intro queue worker call
    have hu := Tally.total_update call s.call c q
    rw [tally, tally, m.call, m.worker]
    omega
  have hflight : s'.inFlightTasks = s'.tally List.length WorkerPhase.inFlight EnqueuePhase.countedInFlight := by
    have hp := h.inFlight
    have hm := m.inFlight
    have ht := htally List.length WorkerPhase.inFlight EnqueuePhase.countedInFlight
    omega
  refine ⟨fun t => ?_, ?_, hflight, m.priority.trans h.priority, fun i hi => ?_, fun hz => ?_, fun hn => ?_⟩
  · have hp := h.placed t
    have hm := m.placed t
    have ht := htally (List.count t) (fun p => p.held.count t) (fun p => p.held.count t)
    rw [m.invoked]
    omega
  · have hp := h.unassigned
    have hm := m.unassigned
    have ht := htally List.length WorkerPhase.unassigned EnqueuePhase.countedUnassigned
    omega
  · rw [m.worker]
    rcases m.pushed i hi with hold | rfl
    · rcases h.served i hold with h1 | ⟨d, h1⟩ | h1
      · left
        have hs := m.signal i
        omega
      · by_cases hd : d = c
        · subst hd
          exact .inl (m.released i h1)
        · refine .inr (.inl ⟨d, ?_⟩)
          rw [m.call, Function.update_of_ne hd]
          exact h1
      · exact .inr (.inr h1)
    · refine .inr (.inl ⟨c, ?_⟩)
      rw [m.call, Function.update_self]
  · rcases m.complete with hq | ⟨hc, hf⟩
    · have hle := Tally.le_total EnqueuePhase.countedInFlight s'.call c
      rw [m.call, Function.update_self, hq] at hle
      rw [tally, m.call] at hflight
      omega
    · rw [hc, m.invoked, m.worker]
      exact h.complete (hf ▸ hz)
  · rw [m.dropped hn]
    exact h.dropped hn

theorem Inv.callStep (h : s.Inv) (c : ι) : (s.callStep sem c).Inv := by
  rw [ThreadPool.callStep]
  cases hc : s.call c with
  | idle => exact h
  | assigned task i =>
    refine h.call_move (c := c) (q := .unassigned task i) ⟨rfl, rfl, rfl, .refl _, ?_, ?_, ?_, fun i hi => .inl hi,
      fun i => .inl (Nat.le_refl _), ?_, .inr ⟨rfl, rfl⟩, fun _ => rfl⟩
    all_goals simp [hc, EnqueuePhase.held, EnqueuePhase.countedUnassigned, EnqueuePhase.countedInFlight]
    omega
  | unassigned task i =>
    dsimp only
    refine h.call_move (c := c) (q := if s.inFlightTasks = 0 then .resetting task i else .pushing task i)
      ⟨rfl, rfl, rfl, .refl _, ?_, ?_, ?_, fun i hi => .inl hi, fun i => .inl (Nat.le_refl _), ?_, .inl ?_,
        fun _ => rfl⟩
    all_goals split <;> simp [hc, EnqueuePhase.held, EnqueuePhase.countedUnassigned, EnqueuePhase.countedInFlight]
    all_goals omega
  | resetting task i =>
    refine h.call_move (c := c) (q := .pushing task i) ⟨rfl, rfl, rfl, .refl _, ?_, ?_, ?_, fun i hi => .inl hi,
      fun i => .inl (Nat.le_refl _), ?_, .inl rfl, fun _ => rfl⟩
    all_goals simp [hc, EnqueuePhase.held, EnqueuePhase.countedUnassigned, EnqueuePhase.countedInFlight]
  | pushing task i =>
    refine h.call_move (c := c) (q := .releasing i) ⟨rfl, rfl, rfl, .refl _, fun t => ?_, ?_, ?_, fun k hk => ?_,
      fun i => .inl (Nat.le_refl _), ?_, .inr ⟨rfl, rfl⟩, fun _ => rfl⟩
    · have ht := Tally.total_update (List.count t) s.tasks i (s.tasks i ++ [task])
      rw [List.count_append] at ht
      simp only [hc, EnqueuePhase.held, List.count_nil]
      omega
    · have ht := Tally.total_update List.length s.tasks i (s.tasks i ++ [task])
      rw [List.length_append, List.length_singleton] at ht
      simp only [hc, EnqueuePhase.countedUnassigned]
      omega
    · have ht := Tally.total_update List.length s.tasks i (s.tasks i ++ [task])
      rw [List.length_append, List.length_singleton] at ht
      simp only [hc, EnqueuePhase.countedInFlight]
      omega
    · by_cases hki : k = i
      · subst hki
        exact .inr rfl
      · dsimp only at hk
        rw [Function.update_of_ne hki] at hk
        exact .inl hk
    · intro k hk
      rw [hc] at hk
      cases hk
  | releasing i =>
    refine h.call_move (c := c) (q := .idle) ⟨rfl, rfl, rfl, .refl _, fun t => ?_, ?_, ?_, fun k hk => .inl hk,
      fun k => ?_, fun k hk => ?_, .inr ⟨rfl, rfl⟩, fun _ => rfl⟩
    · rw [hc]
      rfl
    · rw [hc]
      rfl
    · rw [hc]
      rfl
    · by_cases hki : k = i
      · subst hki
        right
        dsimp only
        rw [Function.update_self]
        exact sem.release_pos _
      · left
        dsimp only
        rw [Function.update_of_ne hki]
    · rw [hc] at hk
      cases hk
      dsimp only
      rw [Function.update_self]
      exact sem.release_pos _

theorem Inv.enqueue (h : s.Inv) (c : ι) (task : τ) : (s.enqueue c task).Inv := by
  rw [ThreadPool.enqueue]
  cases hc : s.call c with
  | idle =>
    dsimp only
    cases hp : s.priorityQueue with
    | nil =>
      dsimp only
      have hn : n = 0 := by
        have hlen := h.priority.length_eq
        rw [hp, List.length_finRange] at hlen
        exact hlen.symm
      refine h.call_move (c := c) (q := .idle) ⟨?_, rfl, rfl, .of_eq hp.symm, fun t => ?_, ?_, ?_, fun k hk => .inl hk,
        fun k => .inl (Nat.le_refl _), fun k hk => ?_, .inr ⟨rfl, rfl⟩, fun hpos => ?_⟩
      · exact (Function.update_eq_self_iff.mpr hc.symm).symm
      · simp only [hc, List.count_append]
        omega
      · rw [hc]
      · rw [hc]
      · rw [hc] at hk
        cases hk
      · omega
    | cons i rest =>
      dsimp only
      refine h.call_move (c := c) (q := .assigned task i) ⟨rfl, rfl, rfl, ?_, fun t => ?_, ?_, ?_, fun k hk => .inl hk,
        fun k => .inl (Nat.le_refl _), fun k hk => ?_, .inr ⟨rfl, rfl⟩, fun _ => rfl⟩
      · rw [hp]
        exact List.perm_append_singleton i rest
      · rw [hc, List.count_append]
        simp only [EnqueuePhase.held, List.count_nil]
        omega
      · rw [hc]
        rfl
      · rw [hc]
        rfl
      · rw [hc] at hk
        cases hk
  | _ => exact h

theorem Inv.step (h : s.Inv) (op : Op n ι τ) : (step sem s op).Inv := by
  cases op with
  | worker id => exact h.workerStep id
  | call c => exact h.callStep c
  | enqueue c task => exact h.enqueue c task

/-- The pool after some steps of its threads, in any order. -/
def after (sem : BinarySemaphore) (ops : List (Op n ι τ)) : ThreadPool n ι τ := Runs.run (step sem) new ops

theorem inv_after (ops : List (Op n ι τ)) : (after sem ops : ThreadPool n ι τ).Inv :=
  Runs.invariant (step sem) (fun _ op h => h.step op) ops inv_new

/-! ## Each task once -/

/-- The tasks that are enqueued and not yet invoked, each where it is. -/
def waiting (s : ThreadPool n ι τ) : Multiset τ :=
  ∑ i, (s.tasks i : Multiset τ) + ∑ i, ((s.worker i).held : Multiset τ) + ∑ c, ((s.call c).held : Multiset τ)

omit [DecidableEq ι] in
theorem count_waiting (t : τ) :
    s.waiting.count t = s.tally (List.count t) (fun p => p.held.count t) (fun p => p.held.count t) := by
  simp only [waiting, tally, Tally.total, Multiset.count_add, Multiset.count_sum', Multiset.coe_count]

omit [DecidableEq ι] in
theorem Inv.enqueued_eq (h : s.Inv) : (s.enqueued : Multiset τ) = s.invoked + s.dropped + s.waiting := by
  ext t
  rw [Multiset.count_add, Multiset.count_add, count_waiting, Multiset.coe_count, Multiset.coe_count,
    Multiset.coe_count]
  exact h.placed t

theorem enqueued_after (sem : BinarySemaphore) (ops : List (Op (n + 1) ι τ)) :
    ((after sem ops).enqueued : Multiset τ) = (after sem ops).invoked + (after sem ops).waiting := by
  have h : (after sem ops).Inv := inv_after ops
  rw [h.enqueued_eq, h.dropped (Nat.succ_pos n), Multiset.coe_nil, add_zero]

/-- The task that a step hands to `enqueue_task`; a caller is in one call at a time. -/
def callOf (s : ThreadPool n ι τ) : Op n ι τ → List τ
  | .enqueue c task =>
    match s.call c with
    | .idle => [task]
    | _ => []
  | _ => []

/-- The tasks of the calls of `enqueue_task` in a run, in order. -/
def calls (sem : BinarySemaphore) : ThreadPool n ι τ → List (Op n ι τ) → List τ
  | _, [] => []
  | s, op :: ops => s.callOf op ++ calls sem (step sem s op) ops

omit [Fintype ι] [DecidableEq τ] in
theorem enqueued_step (sem : BinarySemaphore) (s : ThreadPool n ι τ) (op : Op n ι τ) :
    (step sem s op).enqueued = s.enqueued ++ s.callOf op := by
  cases op with
  | worker id =>
    change (s.workerStep id).enqueued = s.enqueued ++ []
    rw [List.append_nil, ThreadPool.workerStep]
    repeat' split
    all_goals rfl
  | call c =>
    change (s.callStep sem c).enqueued = s.enqueued ++ []
    rw [List.append_nil, ThreadPool.callStep]
    split <;> rfl
  | enqueue c task =>
    rw [callOf, step, ThreadPool.enqueue]
    cases s.call c with
    | idle =>
      dsimp only
      split <;> rfl
    | _ => exact (List.append_nil _).symm

omit [Fintype ι] [DecidableEq τ] in
theorem enqueued_run (sem : BinarySemaphore) (ops : List (Op n ι τ)) : ∀ s : ThreadPool n ι τ,
    (Runs.run (step sem) s ops).enqueued = s.enqueued ++ calls sem s ops := by
  induction ops with
  | nil => exact fun s => (List.append_nil _).symm
  | cons op ops ih =>
    intro s
    rw [Runs.run_cons, ih, enqueued_step, calls, List.append_assoc]

/-- What was enqueued is what the calls brought, a pool with a thread drops nothing
of it, and it has been invoked as often or is in one place. -/
theorem pool_exactly_once (sem : BinarySemaphore) (ops : List (Op (n + 1) ι τ)) :
    (after sem ops).enqueued = calls sem new ops ∧
      ((after sem ops).enqueued : Multiset τ) = (after sem ops).invoked + (after sem ops).waiting ∧
      (after sem ops).dropped = [] ∧ (after sem ops).priorityQueue.Perm (List.finRange (n + 1)) := by
  have h : (after sem ops).Inv := inv_after ops
  exact ⟨enqueued_run sem ops new, enqueued_after sem ops, h.dropped (Nat.succ_pos n), h.priority⟩

omit [DecidableEq ι] [DecidableEq τ] in
theorem card_waiting (s : ThreadPool n ι τ) :
    s.waiting.card = Tally.total List.length s.tasks + Tally.total (fun p => p.held.length) s.worker +
      (Tally.total (fun p => p.uncounted.length) s.call + Tally.total EnqueuePhase.countedInFlight s.call) := by
  rw [← Tally.total_add, waiting, Multiset.card_add, Multiset.card_add, Multiset.card_sum, Multiset.card_sum,
    Multiset.card_sum]
  simp only [Multiset.coe_card, EnqueuePhase.length_held]
  rfl

/-- `wait_for_tasks` looks at the counter alone: it is 0 just when every task
that a call has counted was invoked and no worker is still to count one down. -/
theorem pool_wait_sound (sem : BinarySemaphore) (ops : List (Op (n + 1) ι τ)) :
    0 ≤ (after sem ops).inFlightTasks ∧
      ((after sem ops).inFlightTasks = 0 ↔
        ((after sem ops).enqueued : Multiset τ) =
            (after sem ops).invoked + ∑ c, (((after sem ops).call c).uncounted : Multiset τ) ∧
          ∀ i own, (after sem ops).worker i ≠ .invoked own) := by
  have h : (after sem ops).Inv := inv_after ops
  have hflight := h.inFlight
  rw [tally] at hflight
  rw [enqueued_after]
  refine ⟨by omega, fun hz => ⟨?_, fun i own hi => ?_⟩, fun hw => ?_⟩
  · -- nothing in flight, so no queue, worker or counted call has a task
    have htasks := Tally.total_eq_zero.mp (show Tally.total List.length (after sem ops).tasks = 0 by omega)
    have hworker := Tally.total_eq_zero.mp (show Tally.total WorkerPhase.inFlight (after sem ops).worker = 0 by omega)
    have hcall := Tally.total_eq_zero.mp
      (show Tally.total EnqueuePhase.countedInFlight (after sem ops).call = 0 by omega)
    rw [add_right_inj, waiting, Finset.sum_eq_zero fun i _ => ?_, Finset.sum_eq_zero fun i _ => ?_, zero_add, zero_add]
    · exact Finset.sum_congr rfl fun c _ => congrArg _ (EnqueuePhase.held_of_uncounted (hcall c))
    · rw [WorkerPhase.held_of_inFlight (hworker i)]
      rfl
    · rw [List.length_eq_zero_iff.mp (htasks i)]
      rfl
  · have hle := Tally.le_total WorkerPhase.inFlight (after sem ops).worker i
    rw [hi, WorkerPhase.inFlight] at hle
    omega
  · obtain ⟨heq, hinvoked⟩ := hw
    have hcard := congrArg Multiset.card (add_left_cancel heq)
    have hworker : Tally.total WorkerPhase.inFlight (after sem ops).worker =
        Tally.total (fun p => p.held.length) (after sem ops).worker :=
      Finset.sum_congr rfl fun i _ => WorkerPhase.inFlight_of_not_invoked (hinvoked i)
    have hcalls : (∑ c, (((after sem ops).call c).uncounted : Multiset τ)).card =
        Tally.total (fun p => p.uncounted.length) (after sem ops).call := by
      rw [Multiset.card_sum]
      rfl
    rw [card_waiting, hcalls] at hcard
    omega

end ThreadPool

end Ryklys

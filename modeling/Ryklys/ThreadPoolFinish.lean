import Ryklys.ThreadPoolSound

/-!
# The pool comes to rest

Where no thread can move, everything has run (`pool_at_rest`), and from every
state the threads can get there: two measures go down, one while there are
tasks and calls (`work`), then one while workers go round (`rounds`).
-/

namespace Ryklys.ThreadPool

variable {n : Nat} {ι τ : Type} [Fintype ι] [DecidableEq ι] [DecidableEq τ] {s : ThreadPool n ι τ}
  {sem : BinarySemaphore}

/-- No worker and no call of `enqueue_task` can move. -/
def Stuck (sem : BinarySemaphore) (s : ThreadPool n ι τ) : Prop :=
  (∀ id, s.workerStep id = s) ∧ ∀ c, s.callStep sem c = s

section
omit [Fintype ι] [DecidableEq ι] [DecidableEq τ]

/-- A worker that does not wait for its signal goes on to another phase. -/
theorem workerStep_moves (s : ThreadPool n ι τ) (id : Fin n) (h : s.worker id ≠ .acquiring ∨ 0 < s.signal id) :
    (s.workerStep id).worker id ≠ s.worker id := by
  rw [workerStep]
  cases hw : s.worker id with
  | acquiring =>
    simp only [if_pos (h.resolve_left (not_not_intro hw)), Function.update_self]
    exact fun h => by cases h
  | popping =>
    dsimp only
    split <;> dsimp only <;> rw [Function.update_self] <;> exact fun h => by cases h
  | stealing j =>
    dsimp only
    split
    · cases (s.tasks (victim id j)).getLast? with
      | none =>
        dsimp only
        rw [Function.update_self]
        exact fun h => by simp at h
      | some task =>
        dsimp only
        rw [Function.update_self]
        exact fun h => by cases h
    · dsimp only
      rw [Function.update_self]
      exact fun h => by cases h
  | invoked own =>
    dsimp only
    rw [Function.update_self]
    cases own <;> exact fun h => by cases h
  | checking =>
    dsimp only
    rw [Function.update_self]
    split <;> exact fun h => by cases h
  | testing =>
    dsimp only
    rw [Function.update_self]
    split <;> exact fun h => by cases h
  | _ =>
    dsimp only
    rw [Function.update_self]
    exact fun h => by cases h

theorem acquiring_of_still {id : Fin n} (h : s.workerStep id = s) : s.worker id = .acquiring ∧ s.signal id = 0 := by
  by_contra hn
  refine workerStep_moves s id ?_ (by rw [h])
  by_cases hw : s.worker id = .acquiring
  · exact .inr (Nat.pos_of_ne_zero fun hs => hn ⟨hw, hs⟩)
  · exact .inl hw

end

section
omit [Fintype ι] [DecidableEq τ]

theorem callStep_moves (sem : BinarySemaphore) {c : ι} (h : s.call c ≠ .idle) :
    (s.callStep sem c).call c ≠ s.call c := by
  rw [callStep]
  cases hc : s.call c with
  | idle => exact absurd hc h
  | unassigned task i =>
    dsimp only
    rw [Function.update_self]
    split <;> exact fun h => by cases h
  | _ =>
    dsimp only
    rw [Function.update_self]
    exact fun h => by cases h

theorem idle_of_still {c : ι} (h : s.callStep sem c = s) : s.call c = .idle := by
  by_contra hn
  exact callStep_moves sem hn (by rw [h])

end

/-- What is left when all has run. -/
structure AtRest (s : ThreadPool n ι τ) : Prop where
  invoked : s.invoked.Perm s.enqueued
  tasks : ∀ i, s.tasks i = []
  unassigned : s.unassignedTasks = 0
  inFlight : s.inFlightTasks = 0
  complete : s.threadsComplete = true ∨ s.enqueued = []

omit [DecidableEq ι] in
theorem Inv.at_rest (h : s.Inv) (hn : 0 < n) (hw : ∀ id, s.worker id = .acquiring ∧ s.signal id = 0)
    (hc : ∀ c, s.call c = .idle) : s.AtRest := by
  have htasks : ∀ i, s.tasks i = [] := by
    intro i
    by_contra hne
    rcases h.served i hne with h1 | ⟨c, h1⟩ | h1
    · rw [(hw i).2] at h1
      exact absurd h1 (Nat.lt_irrefl 0)
    · rw [hc c] at h1
      cases h1
    · rw [(hw i).1] at h1
      exact h1
  have htally : ∀ queue worker (call : EnqueuePhase τ n → Nat), queue [] = 0 → worker .acquiring = 0 → call .idle = 0 →
      s.tally queue worker call = 0 := by
    intro queue worker call hq hwk hcl
    rw [tally, Tally.total_eq_zero.mpr fun i => by rw [htasks i, hq],
      Tally.total_eq_zero.mpr fun i => by rw [(hw i).1, hwk],
      Tally.total_eq_zero.mpr fun c => by rw [hc c, hcl]]
  have hinFlight : s.inFlightTasks = 0 := by
    rw [h.inFlight, htally _ _ _ rfl rfl rfl]
    rfl
  have hperm : s.invoked.Perm s.enqueued := by
    rw [List.perm_iff_count]
    intro t
    rw [h.placed t, htally _ _ _ rfl rfl rfl, h.dropped hn]
    rfl
  refine ⟨hperm, htasks, ?_, hinFlight, ?_⟩
  · rw [h.unassigned, htally _ _ _ rfl rfl rfl]
    rfl
  · rcases h.complete hinFlight with h1 | h1 | ⟨i, h1⟩
    · exact .inl h1
    · rw [h1] at hperm
      exact .inr (List.nil_perm.mp hperm)
    · exact absurd (hw i).1 h1

/-- No task is left behind: where no thread can move any more, every task that
was enqueued has run, and a waiter for the tasks is let through. -/
theorem pool_at_rest (sem : BinarySemaphore) (ops : List (Op (n + 1) ι τ)) (h : Stuck sem (after sem ops)) :
    AtRest (after sem ops) :=
  (inv_after ops).at_rest (Nat.succ_pos n) (fun id => acquiring_of_still (h.1 id)) fun c => idle_of_still (h.2 c)

/-- Three tasks through a pool of two threads; the second steals the last one from the first. -/
def threeTasks : List (Op 2 (Fin 1) Nat) :=
  [7, 8, 9].flatMap (fun task => .enqueue 0 task :: List.replicate 5 (.call 0)) ++
    List.replicate 9 (.worker 1) ++ List.replicate 12 (.worker 0) ++ List.replicate 10 (.worker 1)

theorem pool_at_rest_three : AtRest (after ⟨fun _ => 1, fun _ => Nat.one_pos⟩ threeTasks) :=
  pool_at_rest ⟨fun _ => 1, fun _ => Nat.one_pos⟩ threeTasks
    ⟨Fin.forall_fin_two.mpr ⟨rfl, rfl⟩, Fin.forall_fin_one.mpr rfl⟩

example : (after ⟨fun _ => 1, fun _ => Nat.one_pos⟩ threeTasks).invoked = [8, 9, 7] := rfl

/-! ## Working the tasks off -/

def workRank (n : Nat) : WorkerPhase τ → Nat
  | .popping => 0
  | .acquiring | .checking => 1
  | .completing => 2
  | .testing | .invoked _ => 3
  | .rotating | .invoking _ _ => 4
  | .popped _ _ => 5
  | .stealing j => 2 + (n - j)

def callRank : EnqueuePhase τ n → Nat
  | .idle => 0
  | .releasing _ => 1
  | .pushing _ _ => 8
  | .resetting _ _ => 9
  | .unassigned _ _ => 10
  | .assigned _ _ => 11

def work (s : ThreadPool n ι τ) : Nat := s.tally (fun q => 6 * q.length) (workRank n) callRank

omit [Fintype ι] [DecidableEq ι] [DecidableEq τ] in
/-- On its way to a task, not round and round. -/
structure Busy (s : ThreadPool n ι τ) (id : Fin n) : Prop where
  acquiring : s.worker id = .acquiring → 0 < s.signal id
  popping : s.worker id = .popping → s.tasks id ≠ []
  checking : s.worker id = .checking → 0 < s.unassignedTasks

omit [DecidableEq ι] [DecidableEq τ] in
theorem work_worker {id : Fin n} (h : s.Busy id) : (s.workerStep id).work < s.work := by
  have hgoto : ∀ (p : WorkerPhase τ), workRank n p < workRank n (s.worker id) →
      Tally.total (workRank n) (Function.update s.worker id p) < Tally.total (workRank n) s.worker := by
    intro p hp
    have ht := Tally.total_update (workRank n) s.worker id p
    omega
  have htake : ∀ (j : Fin n) (task : τ) (own : Bool) (rest : List τ), (s.tasks j).length = rest.length + 1 →
      Tally.total (fun q => 6 * q.length) (Function.update s.tasks j rest) +
          Tally.total (workRank n) (Function.update s.worker id (.popped task own)) <
        Tally.total (fun q => 6 * q.length) s.tasks + Tally.total (workRank n) s.worker := by
    intro j task own rest hlen
    have hq := Tally.total_update (fun q : List τ => 6 * q.length) s.tasks j rest
    have ht := Tally.total_update (workRank n) s.worker id (.popped task own)
    have hrank : workRank n (WorkerPhase.popped task own) = 5 := rfl
    omega
  rw [workerStep]
  cases hw : s.worker id with
  | acquiring =>
    simp only [if_pos (h.acquiring hw), work, tally]
    have hlt := hgoto .popping (by rw [hw]; exact Nat.zero_lt_one)
    omega
  | popping =>
    dsimp only
    split
    · rename_i hnil
      exact absurd hnil (h.popping hw)
    · rename_i task rest hcons
      have hlt := htake id task true rest (by rw [hcons, List.length_cons])
      simp only [work, tally]
      omega
  | stealing j =>
    dsimp only
    split
    · rename_i hj
      cases hl : (s.tasks (victim id j)).getLast? with
      | none =>
        have hlt := hgoto (.stealing (j + 1)) (by rw [hw, workRank, workRank]; omega)
        simp only [work, tally]
        omega
      | some task =>
        have hlast := congrArg List.length (List.dropLast_append_getLast? task hl)
        rw [List.length_append, List.length_singleton] at hlast
        have hlt := htake (victim id j) task false (s.tasks (victim id j)).dropLast hlast.symm
        simp only [work, tally]
        omega
    · have hlt := hgoto .checking (by rw [hw, workRank, workRank]; omega)
      simp only [work, tally]
      omega
  | checking =>
    have hlt := hgoto .popping (by rw [hw]; exact Nat.zero_lt_one)
    simp only [if_pos (h.checking hw), work, tally]
    omega
  | invoked own =>
    have hlt := hgoto (if own then .popping else .checking) (by rw [hw]; cases own <;> simp [workRank])
    simp only [work, tally]
    omega
  | testing =>
    have hlt := hgoto (if s.inFlightTasks = 0 then .completing else .acquiring) (by rw [hw]; split <;> simp [workRank])
    simp only [work, tally]
    omega
  | popped task own =>
    have hlt := hgoto (.invoking task own) (by rw [hw]; exact Nat.lt_succ_self 4)
    simp only [work, tally]
    omega
  | invoking task own =>
    have hlt := hgoto (.invoked own) (by rw [hw]; exact Nat.lt_succ_self 3)
    simp only [work, tally]
    omega
  | rotating =>
    have hlt := hgoto .testing (by rw [hw]; exact Nat.lt_succ_self 3)
    simp only [work, tally]
    omega
  | completing =>
    have hlt := hgoto .acquiring (by rw [hw]; exact Nat.lt_succ_self 1)
    simp only [work, tally]
    omega

omit [DecidableEq τ] in
theorem work_call {c : ι} (h : s.call c ≠ .idle) : (s.callStep sem c).work < s.work := by
  have hgoto : ∀ (p : EnqueuePhase τ n), callRank p < callRank (s.call c) →
      Tally.total callRank (Function.update s.call c p) < Tally.total callRank s.call := by
    intro p hp
    have ht := Tally.total_update callRank s.call c p
    omega
  rw [callStep]
  cases hc : s.call c with
  | idle => exact absurd hc h
  | assigned task i =>
    have hlt := hgoto (.unassigned task i) (by rw [hc]; exact Nat.lt_succ_self 10)
    simp only [work, tally]
    omega
  | unassigned task i =>
    have hlt := hgoto (if s.inFlightTasks = 0 then .resetting task i else .pushing task i)
      (by rw [hc]; split <;> simp [callRank])
    simp only [work, tally]
    omega
  | resetting task i =>
    have hlt := hgoto (.pushing task i) (by rw [hc]; exact Nat.lt_succ_self 8)
    simp only [work, tally]
    omega
  | pushing task i =>
    have hq := Tally.total_update (fun q : List τ => 6 * q.length) s.tasks i (s.tasks i ++ [task])
    have ht := Tally.total_update callRank s.call c (.releasing i)
    have hold : callRank (s.call c) = 8 := by rw [hc]; rfl
    have hnew : callRank (EnqueuePhase.releasing i : EnqueuePhase τ n) = 1 := rfl
    rw [List.length_append, List.length_singleton] at hq
    simp only [work, tally]
    omega
  | releasing i =>
    have hlt := hgoto .idle (by rw [hc]; exact Nat.lt_succ_self 0)
    simp only [work, tally]
    omega

/-- No task in a queue, with a worker or with a caller. -/
structure Settled (s : ThreadPool n ι τ) : Prop where
  call : ∀ c, s.call c = .idle
  tasks : ∀ i, s.tasks i = []
  worker : ∀ i, (s.worker i).inFlight = 0

omit [DecidableEq ι] in
theorem Inv.exists_busy (h : s.Inv) (hc : ∀ c, s.call c = .idle) (hn : ¬ s.Settled) : ∃ id, s.Busy id := by
  by_cases hw : ∀ i, (s.worker i).inFlight = 0
  · by_cases ht : ∀ i, s.tasks i = []
    · exact absurd ⟨hc, ht, hw⟩ hn
    · obtain ⟨i, hi⟩ := not_forall.mp ht
      refine ⟨i, ?_, fun _ => hi, fun _ => ?_⟩
      · intro ha
        rcases h.served i hi with h1 | ⟨c, h1⟩ | h1
        · exact h1
        · rw [hc c] at h1
          cases h1
        · rw [ha] at h1
          exact absurd h1 not_false
      · have hu := h.unassigned
        have hle := Tally.le_total List.length s.tasks i
        have hpos := List.length_pos_of_ne_nil hi
        rw [tally] at hu
        omega
  · obtain ⟨i, hi⟩ := not_forall.mp hw
    refine ⟨i, fun hp => ?_, fun hp => ?_, fun hp => ?_⟩
    all_goals
      rw [hp] at hi
      exact absurd rfl hi

/-- A step of a thread that is at something already. -/
def Op.isEnqueue : Op n ι τ → Bool
  | .enqueue _ _ => true
  | _ => false

theorem settles (sem : BinarySemaphore) (h : s.Inv) : ∃ more : List (Op n ι τ), (∀ op ∈ more, op.isEnqueue = false) ∧
    (Runs.run (step sem) s more).Settled := by
  induction hm : s.work using Nat.strong_induction_on generalizing s with
  | _ m ih =>
    subst hm
    by_cases hset : s.Settled
    · exact ⟨[], List.forall_mem_nil _, hset⟩
    have hstep : ∀ op : Op n ι τ, op.isEnqueue = false → (step sem s op).work < s.work →
        ∃ more : List (Op n ι τ), (∀ op ∈ more, op.isEnqueue = false) ∧ (Runs.run (step sem) s more).Settled := by
      intro op hop hlt
      obtain ⟨more, hmore, hs⟩ := ih _ hlt (h.step op) rfl
      exact ⟨op :: more, List.forall_mem_cons.mpr ⟨hop, hmore⟩, hs⟩
    by_cases hc : ∀ c, s.call c = .idle
    · obtain ⟨id, hid⟩ := h.exists_busy hc hset
      exact hstep (.worker id) rfl (work_worker hid)
    · obtain ⟨c, hc⟩ := not_forall.mp hc
      exact hstep (.call c) rfl (work_call hc)

/-! ## The last rounds -/

def roundRank (n : Nat) : WorkerPhase τ → Nat
  | .completing => 1
  | .testing => 2
  | .rotating => 3
  | .checking => 4
  | .stealing j => 5 + (n - j)
  | .popping => n + 7
  | _ => 0

def rounds (s : ThreadPool n ι τ) : Nat :=
  Tally.total (fun k => (n + 8) * k) s.signal + Tally.total (roundRank n) s.worker

omit [DecidableEq ι] in
theorem Inv.unassigned_of_settled (h : s.Inv) (hs : s.Settled) : s.unassignedTasks = 0 := by
  have hle : ∀ p : WorkerPhase τ, p.unassigned ≤ p.inFlight := by
    intro p
    cases p <;> simp [WorkerPhase.unassigned, WorkerPhase.inFlight]
  rw [h.unassigned, tally, Tally.total_eq_zero.mpr fun i => by rw [hs.tasks i, List.length_nil],
    Tally.total_eq_zero.mpr fun i => Nat.le_zero.mp (hs.worker i ▸ hle (s.worker i)),
    Tally.total_eq_zero.mpr fun c => by rw [hs.call c]; rfl]
  rfl

omit [DecidableEq ι] in
/-- With no task left a worker only comes nearer to its wait. -/
theorem rounds_worker {id : Fin n} (h : s.Inv) (hs : s.Settled) (hm : s.worker id ≠ .acquiring ∨ 0 < s.signal id) :
    (s.workerStep id).Settled ∧ (s.workerStep id).rounds < s.rounds := by
  have hgoto : ∀ {s' : ThreadPool n ι τ} (p : WorkerPhase τ), s'.call = s.call → s'.tasks = s.tasks →
      s'.worker = Function.update s.worker id p → s'.signal = s.signal → p.inFlight = 0 →
      roundRank n p < roundRank n (s.worker id) → s'.Settled ∧ s'.rounds < s.rounds := by
    intro s' p hcall htasks hworker hsignal hp hlt
    have ht := Tally.total_update (roundRank n) s.worker id p
    refine ⟨⟨fun c => hcall ▸ hs.call c, fun i => htasks ▸ hs.tasks i, fun i => ?_⟩, ?_⟩
    · rw [hworker]
      by_cases hi : i = id
      · rw [hi, Function.update_self, hp]
      · rw [Function.update_of_ne hi]
        exact hs.worker i
    · rw [rounds, rounds, hworker, hsignal]
      omega
  have hheld := hs.worker id
  rw [workerStep]
  cases hw : s.worker id with
  | acquiring =>
    have hpos := hm.resolve_left (not_not_intro hw)
    rw [if_pos hpos]
    have hq := Tally.total_update (fun k => (n + 8) * k) s.signal id (s.signal id - 1)
    have ht := Tally.total_update (roundRank n) s.worker id .popping
    have hmul : (n + 8) * s.signal id = (n + 8) * (s.signal id - 1) + (n + 8) := by
      rw [← Nat.mul_succ, Nat.succ_eq_add_one, Nat.sub_add_cancel hpos]
    refine ⟨⟨hs.call, hs.tasks, fun i => ?_⟩, ?_⟩
    · dsimp only
      by_cases hi : i = id
      · rw [hi, Function.update_self]
        rfl
      · rw [Function.update_of_ne hi]
        exact hs.worker i
    · have hrank : roundRank n (s.worker id) = 0 := by rw [hw]; rfl
      have hpop : roundRank n (WorkerPhase.popping : WorkerPhase τ) = n + 7 := rfl
      simp only [rounds]
      omega
  | popping =>
    dsimp only
    rw [hs.tasks id]
    exact hgoto (.stealing 1) rfl rfl rfl rfl rfl (by rw [hw, roundRank, roundRank]; omega)
  | stealing j =>
    dsimp only
    split
    · rw [hs.tasks (victim id j)]
      exact hgoto (.stealing (j + 1)) rfl rfl rfl rfl rfl (by rw [hw, roundRank, roundRank]; omega)
    · exact hgoto .checking rfl rfl rfl rfl rfl (by rw [hw, roundRank, roundRank]; omega)
  | checking =>
    rw [h.unassigned_of_settled hs]
    exact hgoto .rotating rfl rfl rfl rfl rfl (by rw [hw]; exact Nat.lt_succ_self 3)
  | rotating => exact hgoto .testing rfl rfl rfl rfl rfl (by rw [hw]; exact Nat.lt_succ_self 2)
  | testing =>
    by_cases hz : s.inFlightTasks = 0
    · rw [if_pos hz]
      exact hgoto .completing rfl rfl rfl rfl rfl (by rw [hw]; exact Nat.lt_succ_self 1)
    · rw [if_neg hz]
      exact hgoto .acquiring rfl rfl rfl rfl rfl (by rw [hw]; exact Nat.zero_lt_succ 1)
  | completing => exact hgoto .acquiring rfl rfl rfl rfl rfl (by rw [hw]; exact Nat.zero_lt_succ 0)
  | _ =>
    rw [hw] at hheld
    cases hheld

theorem rests (sem : BinarySemaphore) (h : s.Inv) (hs : s.Settled) :
    ∃ more : List (Op n ι τ), (∀ op ∈ more, op.isEnqueue = false) ∧ Stuck sem (Runs.run (step sem) s more) := by
  induction hm : s.rounds using Nat.strong_induction_on generalizing s with
  | _ m ih =>
    subst hm
    by_cases hw : ∀ id, s.worker id = .acquiring ∧ s.signal id = 0
    · refine ⟨[], List.forall_mem_nil _, fun id => ?_, fun c => ?_⟩
      · rw [Runs.run_nil, workerStep, (hw id).1]
        simp only [(hw id).2, Nat.lt_irrefl, if_false]
      · rw [Runs.run_nil, callStep, hs.call c]
    · obtain ⟨id, hid⟩ := not_forall.mp hw
      have hm : s.worker id ≠ .acquiring ∨ 0 < s.signal id := by
        by_contra hn
        obtain ⟨h1, h2⟩ := not_or.mp hn
        exact hid ⟨not_not.mp h1, Nat.eq_zero_of_not_pos h2⟩
      obtain ⟨hs', hlt⟩ := rounds_worker h hs hm
      obtain ⟨more, hmore, hstuck⟩ := ih _ hlt (h.workerStep id) hs' rfl
      exact ⟨.worker id :: more, List.forall_mem_cons.mpr ⟨rfl, hmore⟩, hstuck⟩

omit [Fintype ι] [DecidableEq τ] in
theorem enqueued_of_moves (sem : BinarySemaphore) {more : List (Op n ι τ)} (h : ∀ op ∈ more, op.isEnqueue = false) :
    ∀ s : ThreadPool n ι τ, (Runs.run (step sem) s more).enqueued = s.enqueued := by
  have hcalls : ∀ s : ThreadPool n ι τ, calls sem s more = [] := by
    induction more with
    | nil => exact fun s => rfl
    | cons op more ih =>
      intro s
      obtain ⟨hop, hmore⟩ := List.forall_mem_cons.mp h
      rw [calls, ih hmore, List.append_nil]
      cases op with
      | enqueue c task => cases hop
      | worker id => rfl
      | call c => rfl
  intro s
  rw [enqueued_run, hcalls, List.append_nil]

/-- From every state that the threads can come to, with no further call they
can come to rest, and then all that was enqueued has run. -/
theorem pool_finishes (sem : BinarySemaphore) (ops : List (Op (n + 1) ι τ)) :
    ∃ more : List (Op (n + 1) ι τ), (∀ op ∈ more, op.isEnqueue = false) ∧ Stuck sem (after sem (ops ++ more)) ∧
      (after sem (ops ++ more)).invoked.Perm (after sem ops).enqueued := by
  have h : (after sem ops).Inv := inv_after ops
  obtain ⟨more, hmore, hset⟩ := settles sem h
  have h' : (Runs.run (step sem) (after sem ops) more).Inv :=
    Runs.invariant (step sem) (fun _ op h => h.step op) more h
  obtain ⟨last, hlast, hstuck⟩ := rests sem h' hset
  rw [← Runs.run_append] at hstuck
  have hall : ∀ op ∈ more ++ last, op.isEnqueue = false := fun op hop =>
    (List.mem_append.mp hop).elim (hmore op) (hlast op)
  have hrun : after sem (ops ++ (more ++ last)) = Runs.run (step sem) (after sem ops) (more ++ last) :=
    Runs.run_append ..
  refine ⟨more ++ last, hall, hrun ▸ hstuck, ?_⟩
  rw [← enqueued_of_moves sem hall, ← hrun]
  exact ((inv_after _).at_rest (Nat.succ_pos n) (fun id => acquiring_of_still (hrun ▸ hstuck.1 id))
    fun c => idle_of_still (hrun ▸ hstuck.2 c)).invoked

end Ryklys.ThreadPool

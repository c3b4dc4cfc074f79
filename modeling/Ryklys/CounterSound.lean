import Ryklys.ViewerCounter

/-!
# When the viewer counter is accurate

The counter should be the number of viewers in the registries, corrected by
what the tasks under way have still to do to it (`counted`). It is, or a SET 0
is still to come (`Balanced`), if a leave that removed nobody finds no positive
value, and a SET 0 comes when nobody else is counted. A stream end breaks both:
the closed viewers leave once more, when others may have joined (`counter_behind`),
and its SET 0 takes the viewers of other nodes (`counter_reset`).
-/

namespace Ryklys

open Runs

namespace Cluster

variable {N : Nat} {s : Cluster N} {streamId t : Bytes}

/-- With no operation under way, the counter is the number of viewers. -/
def Accurate (s : Cluster N) : Prop :=
  s.tasks = [] → ∀ streamId, s.viewers streamId = s.total streamId ∧ 0 ≤ s.viewers streamId

/-- What a task's operation has added to the counter, against the registries. -/
def weight (t : Bytes) : CounterTask N → Int
  | .incr _ streamId _ => if t = streamId then -1 else 0
  | .install _ _ _ => 0
  | .decr streamId removed => if t = streamId then (if removed then 1 else 0) else 0
  | .setZero _ => 0
  | .reset streamId closed => if t = streamId then closed else 0

def pending (s : Cluster N) (t : Bytes) : Int := (s.tasks.map (weight t)).sum

/-- The viewers that had their INCR and are to have a DECR or a SET 0 yet. -/
def counted (s : Cluster N) (t : Bytes) : Int := s.total t + s.pending t

/-- The DECR of a leave that removed nobody finds no positive value, unless a
SET 0 is to follow anyway. The SET 0 of a leave comes when no viewer is counted,
and that of a stream end when those it closed are. -/
def Exact (s : Cluster N) : CounterOp N → Prop
  | .task (.decr streamId removed) => .decr streamId removed ∈ s.tasks → removed = false →
    s.viewers streamId ≤ 0 ∨ .setZero streamId ∈ s.tasks
  | .task (.setZero streamId) => .setZero streamId ∈ s.tasks → s.counted streamId = 0
  | .task (.reset streamId closed) => .reset streamId closed ∈ s.tasks → s.counted streamId = closed
  | _ => True

instance (s : Cluster N) (o : CounterOp N) : Decidable (s.Exact o) := by
  unfold Exact
  split <;> infer_instance

structure Balanced (s : Cluster N) : Prop where
  balance : ∀ t, s.viewers t = s.counted t ∨ .setZero t ∈ s.tasks
  joined : ∀ node t, ∀ ws ∈ (s.registry node).members t, ws < s.joined

theorem Balanced.accurate (h : Balanced s) : Accurate s := by
  intro htasks t
  have hb : s.viewers t = s.total t := by
    rcases h.balance t with hb | hz
    · rwa [counted, pending, htasks, List.map_nil, List.sum_nil, add_zero] at hb
    · rw [htasks] at hz
      cases hz
  refine ⟨hb, ?_⟩
  rw [hb]
  exact Finset.sum_nonneg fun _ _ => Int.natCast_nonneg _

/-! ## Sums -/

theorem registry_self (s : Cluster N) (node : Fin N) (r : ViewerRegistry Nat) :
    (s.setRegistry node r).registry node = r := Function.update_self _ _ _

theorem registry_of_ne (s : Cluster N) {n node : Fin N} (h : n ≠ node) (r : ViewerRegistry Nat) :
    (s.setRegistry node r).registry n = s.registry n := Function.update_of_ne h _ _

theorem total_setRegistry (s : Cluster N) (node : Fin N) (r : ViewerRegistry Nat) :
    (s.setRegistry node r).total t = s.total t + ((r.count t : Int) - (s.registry node).count t) := by
  have h1 := Finset.add_sum_erase Finset.univ (fun n => (((s.setRegistry node r).registry n).count t : Int))
    (Finset.mem_univ node)
  have h2 := Finset.add_sum_erase Finset.univ (fun n => ((s.registry n).count t : Int)) (Finset.mem_univ node)
  have h3 : ∀ n ∈ Finset.univ.erase node,
      (((s.setRegistry node r).registry n).count t : Int) = (s.registry n).count t := by
    intro n hn
    rw [registry_of_ne s (Finset.ne_of_mem_erase hn)]
  rw [Finset.sum_congr rfl h3, registry_self] at h1
  unfold total
  omega

theorem pending_addTasks (s : Cluster N) (ts : List (CounterTask N)) :
    (s.addTasks ts).pending t = s.pending t + (ts.map (weight t)).sum := by
  rw [pending, addTasks, List.map_append, List.sum_append]
  rfl

theorem pending_erase {task : CounterTask N} (h : task ∈ s.tasks) :
    weight t task + Cluster.pending { s with tasks := s.tasks.erase task } t = s.pending t :=
  List.sum_map_erase (weight t) h

/-! ## The operations on the registries -/

theorem balance_setRegistry (h : Balanced s) (node : Fin N) {r : ViewerRegistry Nat} {task : CounterTask N}
    (hr : ∀ t, (r.count t : Int) + weight t task = (s.registry node).count t) (t : Bytes) :
    s.viewers t = ((s.setRegistry node r).addTasks [task]).counted t ∨
      .setZero t ∈ ((s.setRegistry node r).addTasks [task]).tasks := by
  have hc : ((s.setRegistry node r).addTasks [task]).counted t = s.counted t := by
    have ht := hr t
    have hp : (s.setRegistry node r).pending t = s.pending t := rfl
    have htot : ((s.setRegistry node r).addTasks [task]).total t = (s.setRegistry node r).total t := rfl
    rw [counted, htot, total_setRegistry, pending_addTasks, hp, List.map_singleton, List.sum_singleton, counted]
    omega
  rw [hc]
  exact (h.balance t).imp_right fun hz => List.mem_append_left _ hz

theorem joined_setRegistry (h : Balanced s) (node : Fin N) {r : ViewerRegistry Nat} {k : Nat} (hk : s.joined ≤ k)
    (hr : ∀ t, ∀ ws ∈ r.members t, ws < k) :
    ∀ n t, ∀ ws ∈ ((s.setRegistry node r).registry n).members t, ws < k := by
  intro n t ws hm
  by_cases hn : n = node
  · rw [hn, registry_self] at hm
    exact hr t ws hm
  · rw [registry_of_ne s hn] at hm
    exact Nat.lt_of_lt_of_le (h.joined n t ws hm) hk

theorem balanced_join (h : Balanced s) (node : Fin N) : Balanced
    ({ s.setRegistry node ((s.registry node).add streamId s.joined) with joined := s.joined + 1 }.addTasks
      [.incr node streamId s.joined]) := by
  have hnew : s.joined ∉ (s.registry node).members streamId := fun hm => Nat.lt_irrefl _ (h.joined _ _ _ hm)
  refine ⟨?_, joined_setRegistry h node (Nat.le_succ _) ?_⟩
  · refine balance_setRegistry h node fun t => ?_
    rw [ViewerRegistry.count_add hnew, weight]
    split <;> simp
  · intro t ws hm
    rw [ViewerRegistry.members_add] at hm
    split at hm
    · rcases Finset.mem_insert.mp hm with hm | hm
      · rw [hm]
        exact Nat.lt_succ_self _
      · exact Nat.lt_succ_of_lt (h.joined _ _ _ hm)
    · exact Nat.lt_succ_of_lt (h.joined _ _ _ hm)

theorem balanced_leave (h : Balanced s) (node : Fin N) (ws : Nat) : Balanced
    ((s.setRegistry node ((s.registry node).remove streamId ws)).addTasks
      [.decr streamId (decide (ws ∈ (s.registry node).members streamId))]) := by
  refine ⟨?_, joined_setRegistry h node (Nat.le_refl _) ?_⟩
  · refine balance_setRegistry h node fun t => ?_
    rw [← ViewerRegistry.count_remove (s.registry node) streamId t ws, weight]
    simp only [decide_eq_true_eq]
    split <;> [split; skip] <;> simp
  · intro t v hm
    rw [ViewerRegistry.members_remove] at hm
    split at hm
    · exact h.joined _ _ _ (Finset.mem_of_mem_erase hm)
    · exact h.joined _ _ _ hm

theorem balanced_streamEnd (h : Balanced s) (node : Fin N) : Balanced
    ((s.setRegistry node ((s.registry node).closeAll streamId)).addTasks
      [.reset streamId ((s.registry node).count streamId)]) := by
  refine ⟨?_, joined_setRegistry h node (Nat.le_refl _) ?_⟩
  · refine balance_setRegistry h node fun t => ?_
    rw [ViewerRegistry.count_closeAll, weight]
    by_cases ht : t = streamId
    · rw [if_pos ht, if_pos ht, ht]
      simp
    · rw [if_neg ht, if_neg ht, add_zero]
  · intro t v hm
    rw [ViewerRegistry.members_closeAll] at hm
    split at hm
    · cases hm
    · exact h.joined _ _ _ hm

/-! ## The operations on Redis -/

/-- A task goes and others come, and the counter changes by what they make up
for, or a SET 0 is left to do it. -/
theorem balanced_perform (h : Balanced s) {s' : Cluster N} {task : CounterTask N} (hm : task ∈ s.tasks)
    {ts : List (CounterTask N)} {v : Int} (hr : s'.registry = s.registry) (hj : s'.joined = s.joined)
    (hts : s'.tasks = s.tasks.erase task ++ ts) (hs : s'.viewers = Function.update s.viewers streamId v)
    (hv : ∀ t, s.viewers t = s.counted t ∨ task = .setZero t →
      (if t = streamId then v else s.viewers t) + weight t task = s.counted t + (ts.map (weight t)).sum ∨
        .setZero t ∈ s.tasks.erase task ++ ts) : Balanced s' := by
  refine ⟨fun t => ?_, ?_⟩
  · have he : weight t task + ((s.tasks.erase task).map (weight t)).sum = s.pending t := pending_erase hm
    have ht : s'.total t = s.total t := by rw [total, hr]; rfl
    have hp : s'.pending t = ((s.tasks.erase task).map (weight t)).sum + (ts.map (weight t)).sum := by
      rw [pending, hts, List.map_append, List.sum_append]
    have hst : s'.viewers t = if t = streamId then v else s.viewers t := by rw [hs, Function.update_apply]
    have hvt : s.viewers t = s.counted t ∨ task = .setZero t → s'.viewers t = s'.counted t ∨ .setZero t ∈ s'.tasks := by
      intro hc
      rw [hts]
      refine (hv t hc).imp_left fun hv => ?_
      rw [counted] at hv ⊢
      omega
    rcases h.balance t with hc | hz
    · exact hvt (.inl hc)
    · by_cases htask : task = .setZero t
      · exact hvt (.inr htask)
      · rw [hts]
        exact .inr (List.mem_append_left _ ((List.mem_erase_of_ne (Ne.symm htask)).mpr hz))
  · rw [hr, hj]
    exact h.joined

theorem balanced_decr (h : Balanced s) {removed : Bool} (hm : .decr streamId removed ∈ s.tasks)
    (ho : removed = false → s.viewers streamId ≤ 0 ∨ .setZero streamId ∈ s.tasks) :
    Balanced ({ s with tasks := s.tasks.erase (.decr streamId removed) }.perform (.decr streamId removed)) := by
  refine balanced_perform h hm rfl rfl rfl rfl fun t ht => ?_
  have hc : s.viewers t = s.counted t := by
    rcases ht with hc | hz
    · exact hc
    · cases hz
  have herase : (Cluster.viewers { s with tasks := s.tasks.erase (.decr streamId removed) }) = s.viewers := rfl
  have hsum : ((if s.viewers streamId - 1 < 0 then [CounterTask.setZero streamId] else []).map
      (weight (N := N) t)).sum = 0 := by
    split <;> rfl
  rw [hsum, weight, ← hc]
  by_cases he : t = streamId
  · rw [if_pos he, if_pos he, he]
    cases removed with
    | true => simp
    | false =>
      -- nobody was there to be taken off, so a SET 0 has to follow
      right
      rcases ho rfl with hle | hz
      · rw [herase, if_pos (by omega)]
        exact List.mem_append_right _ (List.mem_singleton_self _)
      · exact List.mem_append_left _ ((List.mem_erase_of_ne (by simp)).mpr hz)
  · simp [he]

theorem balanced_task (h : Balanced s) {task : CounterTask N} (hm : task ∈ s.tasks) (ho : s.Exact (.task task)) :
    Balanced ({ s with tasks := s.tasks.erase task }.perform task) := by
  cases task with
  | incr node streamId ws =>
    refine balanced_perform h hm rfl rfl rfl rfl fun t hc => .inl ?_
    have he := hc.resolve_right (by simp)
    by_cases ht : t = streamId
    · subst ht
      simp [weight, he]
    · simp [weight, ht, he]
  | install node streamId ws =>
    refine balanced_perform (v := s.viewers streamId) h hm rfl rfl (List.append_nil _).symm
      (Function.update_eq_self streamId _).symm fun t hc => .inl ?_
    have he := hc.resolve_right (by simp)
    by_cases ht : t = streamId
    · subst ht
      simp [weight, he]
    · simp [weight, ht, he]
  | decr streamId removed => exact balanced_decr h hm (ho hm)
  | setZero streamId =>
    refine balanced_perform h hm rfl rfl (List.append_nil _).symm rfl fun t hc => .inl ?_
    by_cases ht : t = streamId
    · simp [weight, ht, ho hm]
    · have he := hc.resolve_right (by simpa using Ne.symm ht)
      simp [weight, ht, he]
  | reset streamId closed =>
    refine balanced_perform h hm rfl rfl (List.append_nil _).symm rfl fun t hc => .inl ?_
    have he := hc.resolve_right (by simp)
    by_cases ht : t = streamId
    · simp [weight, ht, ho hm]
    · simp [weight, ht, he]

theorem balanced_step {o : CounterOp N} (h : Balanced s) (ho : s.Exact o) : Balanced (s.step o) := by
  cases o with
  | join node streamId => exact or_stay h fun _ => balanced_join h node
  | leave node streamId ws => exact or_stay h fun _ => balanced_leave h node ws
  | streamEnd node streamId => exact balanced_streamEnd h node
  | task t => exact or_stay h fun hm => balanced_task h hm ho

theorem balanced_init : Balanced ({} : Cluster N) := by
  refine ⟨fun t => ?_, ?_⟩
  · left
    simp [counted, total, pending, ViewerRegistry.count]
  · intro node t ws hm
    cases hm

/-- **An accurate counter**, in a run where each DECR and each SET 0 comes at a
value it is meant for. -/
theorem counter_accurate {ops : List (CounterOp N)} (h : EachStep step Exact ({} : Cluster N) ops) :
    Always step Accurate ({} : Cluster N) ops := by
  apply always_of_inv step ?_ balanced_init (fun _ => Balanced.accurate) h
  intro s o hs ho
  exact balanced_step hs ho

theorem counter_accurate_one :
    Always step Accurate ({} : Cluster 2)
      [.join 1 [115], .task (.incr 1 [115] 0), .task (.install 1 [115] 0), .streamEnd 1 [115], .task (.reset [115] 1),
        .leave 1 [115] 0, .task (.decr [115] false), .task (.setZero [115])] :=
  counter_accurate (by decide)

/-- A viewer of a stream that ended leaves when the next one has its first: the
counter says 0. -/
theorem counter_behind : ¬ Accurate (run step ({} : Cluster 1)
    [.join 0 [115], .task (.incr 0 [115] 0), .task (.install 0 [115] 0), .streamEnd 0 [115], .task (.reset [115] 1),
      .join 0 [115], .task (.incr 0 [115] 1), .task (.install 0 [115] 1), .leave 0 [115] 0,
      .task (.decr [115] false)]) := by
  intro h
  have hc := (h (by decide) [115]).1
  revert hc
  decide

/-- A stream end on one node leaves the viewers of the others uncounted. -/
theorem counter_reset : ¬ Accurate (run step ({} : Cluster 2)
    [.join 1 [115], .task (.incr 1 [115] 0), .task (.install 1 [115] 0), .streamEnd 0 [115],
      .task (.reset [115] 0)]) := by
  intro h
  have hc := (h (by decide) [115]).1
  revert hc
  decide

end Cluster

end Ryklys

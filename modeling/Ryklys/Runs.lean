import Mathlib.Data.List.Infix

/-!
# Runs of a step function

`Always P` says that `P` holds in every state of a run, `EachStep ok` that
every step meets a condition on the state before it. When one step preserves
`P` exactly under `ok`, the two agree on every run (`always_iff`).
-/

namespace Runs

variable {σ ι : Type*} (step : σ → ι → σ)

def run (s : σ) (ops : List ι) : σ := ops.foldl step s

def Always (P : σ → Prop) (s : σ) (ops : List ι) : Prop := ∀ pre, pre <+: ops → P (run step s pre)

def EachStep (ok : σ → ι → Prop) (s : σ) (ops : List ι) : Prop :=
  ∀ pre o, pre ++ [o] <+: ops → ok (run step s pre) o

@[simp] theorem run_nil (s : σ) : run step s [] = s := rfl

@[simp] theorem run_cons (s : σ) (o : ι) (ops : List ι) : run step s (o :: ops) = run step (step s o) ops := rfl

theorem run_append (s : σ) (a b : List ι) : run step s (a ++ b) = run step (run step s a) b := List.foldl_append

@[simp] theorem run_snoc (s : σ) (ops : List ι) (o : ι) :
    run step s (ops ++ [o]) = step (run step s ops) o := by rw [run_append]; rfl

theorem eachStep_nil (ok : σ → ι → Prop) (s : σ) : EachStep step ok s [] := by
  intro pre o h
  exact absurd (List.prefix_nil.mp h) (by simp)

theorem eachStep_cons {ok : σ → ι → Prop} {s : σ} {o : ι} {ops : List ι} :
    EachStep step ok s (o :: ops) ↔ ok s o ∧ EachStep step ok (step s o) ops := by
  constructor
  · intro h
    refine ⟨h [] o (by simp), ?_⟩
    intro pre o' hpre
    exact h (o :: pre) o' (List.cons_prefix_cons.mpr ⟨rfl, hpre⟩)
  · intro ⟨ho, h⟩ pre o' hpre
    cases pre with
    | nil =>
      rw [List.nil_append, List.cons_prefix_cons] at hpre
      rw [run_nil, hpre.1]
      exact ho
    | cons o₁ pre =>
      rw [List.cons_append, List.cons_prefix_cons] at hpre
      rw [run_cons, hpre.1]
      exact h pre o' hpre.2

instance decidableEachStep (ok : σ → ι → Prop) [∀ s o, Decidable (ok s o)] :
    (s : σ) → (ops : List ι) → Decidable (EachStep step ok s ops)
  | s, [] => isTrue (eachStep_nil step ok s)
  | s, o :: ops =>
    have : Decidable (EachStep step ok (step s o) ops) := decidableEachStep ok (step s o) ops
    decidable_of_iff (ok s o ∧ EachStep step ok (step s o) ops) (eachStep_cons step).symm

theorem or_stay {P : σ → Prop} {p : Prop} [Decidable p] {s s' : σ} (hs : P s) (h : p → P s') :
    P (if p then s' else s) := by
  by_cases hp : p
  · rw [if_pos hp]
    exact h hp
  · rw [if_neg hp]
    exact hs

/-- **Invariants.** What the start meets and every step keeps holds after every run. -/
theorem invariant {J : σ → Prop} (hJ : ∀ s o, J s → J (step s o)) : ∀ {s : σ} (ops : List ι), J s → J (run step s ops)
  | _, [], h => h
  | s, o :: ops, h => invariant hJ ops (hJ s o h)

theorem Always.last {P : σ → Prop} {s : σ} {ops : List ι} (h : Always step P s ops) : P (run step s ops) :=
  h ops (List.prefix_refl ops)

theorem Always.imp {P Q : σ → Prop} {s : σ} {ops : List ι} (hPQ : ∀ t, P t → Q t) (h : Always step P s ops) :
    Always step Q s ops := fun pre hpre => hPQ _ (h pre hpre)

section
variable {J P : σ → Prop} {ok : σ → ι → Prop} {s : σ} {ops : List ι}

theorem always_of_eachStep (hJ : ∀ s o, J s → J (step s o)) (hstep : ∀ s o, J s → P s → ok s o → P (step s o))
    (hJ0 : J s) (hP0 : P s) (h : EachStep step ok s ops) : Always step P s ops := by
  intro pre
  induction pre using List.reverseRecOn with
  | nil => intro _; exact hP0
  | append_singleton pre o ih =>
    intro hpre
    rw [run_snoc]
    exact hstep _ _ (invariant step hJ pre hJ0) (ih ((List.prefix_append _ _).trans hpre)) (h pre o hpre)

/-- **Invariants under a condition.** What follows from an invariant that the
start meets, and every step keeps that meets the condition. -/
theorem always_of_inv {I : σ → Prop} (hstep : ∀ s o, I s → ok s o → I (step s o)) (hI0 : I s)
    (hP : ∀ t, I t → P t) (h : EachStep step ok s ops) : Always step P s ops := by
  have hI : Always step I s ops :=
    always_of_eachStep step (J := fun _ => True) (fun _ _ _ => trivial) (fun t o _ => hstep t o) trivial hI0 h
  exact hI.imp step hP

/-- **Exactness on a run.** Of its steps it is enough to know that they keep the
invariant, and from a good state keep `P` exactly under the condition. -/
theorem always_iff_along (hstep : ∀ pre o, pre ++ [o] <+: ops → J (run step s pre) →
      J (step (run step s pre) o) ∧
        (P (run step s pre) → (P (step (run step s pre) o) ↔ ok (run step s pre) o)))
    (hJ0 : J s) (hP0 : P s) : Always step P s ops ↔ EachStep step ok s ops := by
  have hJ : Always step J s ops := by
    intro pre
    induction pre using List.reverseRecOn with
    | nil => intro _; exact hJ0
    | append_singleton pre o ih =>
      intro hpre
      rw [run_snoc]
      exact (hstep pre o hpre (ih ((List.prefix_append _ _).trans hpre))).1
  constructor
  · intro h pre o hpre
    have hp := (List.prefix_append _ _).trans hpre
    have hn := h _ hpre
    rw [run_snoc] at hn
    exact ((hstep pre o hpre (hJ pre hp)).2 (h pre hp)).mp hn
  · intro h pre
    induction pre using List.reverseRecOn with
    | nil => intro _; exact hP0
    | append_singleton pre o ih =>
      intro hpre
      have hp := (List.prefix_append _ _).trans hpre
      rw [run_snoc]
      exact ((hstep pre o hpre (hJ pre hp)).2 (ih hp)).mpr (h pre o hpre)

/-- **Exactness on runs.** When a step from a good state keeps `P` exactly under
the condition, a run stays good exactly when all its steps meet the condition. -/
theorem always_iff (hJ : ∀ s o, J s → J (step s o)) (hstep : ∀ s o, J s → P s → (P (step s o) ↔ ok s o))
    (hJ0 : J s) (hP0 : P s) : Always step P s ops ↔ EachStep step ok s ops :=
  always_iff_along step (fun _ o _ hj => ⟨hJ _ o hj, hstep _ o hj⟩) hJ0 hP0

/-- **Exactness at the end of a run.** What is lost for good shows in the last state. -/
theorem last_iff (hJ : ∀ s o, J s → J (step s o)) (hback : ∀ s o, J s → P (step s o) → P s)
    (hstep : ∀ s o, J s → P s → (P (step s o) ↔ ok s o)) (hJ0 : J s) (hP0 : P s) :
    P (run step s ops) ↔ EachStep step ok s ops := by
  rw [← always_iff step hJ hstep hJ0 hP0]
  refine ⟨fun h => ?_, fun h => h.last⟩
  induction ops using List.reverseRecOn with
  | nil =>
    intro pre hpre
    rwa [List.prefix_nil.mp hpre]
  | append_singleton ops o ih =>
    have hbefore : P (run step s ops) := by
      rw [run_snoc] at h
      exact hback _ o (invariant step hJ ops hJ0) h
    intro pre hpre
    rcases List.prefix_concat_iff.mp hpre with rfl | hpre
    · exact h
    · exact ih hbefore pre hpre

/-- **Runs that end.** A measure that every step lowers bounds the run. -/
theorem length_le_measure {m : σ → Nat} (hstep : ∀ s o, J s → ok s o → J (step s o) ∧ m (step s o) < m s) :
    ∀ {s : σ} {ops : List ι}, J s → EachStep step ok s ops → ops.length ≤ m s
  | _, [], _, _ => Nat.zero_le _
  | s, o :: ops, hJ, h => by
    obtain ⟨ho, h⟩ := (eachStep_cons step).mp h
    obtain ⟨hJ', hlt⟩ := hstep s o hJ ho
    exact Nat.lt_of_le_of_lt (length_le_measure hstep hJ' h) hlt

end

end Runs

import Ryklys.Runs

/-!
# Machines with output

A machine that puts out a list on each input, `emit` on a list of inputs. A
step function that logs what such a machine puts out logs on every run what the
machine puts out on all of it (`run_emits`).
-/

namespace Runs

variable {σ ι β : Type*}

def emit (f : σ → ι → List β × σ) : σ → List ι → List β × σ
  | s, [] => ([], s)
  | s, o :: ops => ((f s o).1 ++ (emit f (f s o).2 ops).1, (emit f (f s o).2 ops).2)

variable {f : σ → ι → List β × σ}

@[simp] theorem emit_nil (s : σ) : emit f s [] = ([], s) := rfl

theorem emit_append : ∀ (s : σ) (a b : List ι),
    emit f s (a ++ b) = ((emit f s a).1 ++ (emit f (emit f s a).2 b).1, (emit f (emit f s a).2 b).2)
  | s, [], b => by simp
  | s, o :: a, b => by
    rw [List.cons_append, emit, emit_append, emit, List.append_assoc]

/-- Where every output meets a condition, all do. -/
theorem forall_mem_emit {P : β → Prop} {ops : List ι} (h : ∀ s, ∀ o ∈ ops, ∀ b ∈ (f s o).1, P b) :
    ∀ s, ∀ b ∈ (emit f s ops).1, P b := by
  induction ops with
  | nil =>
    intro s b hb
    cases hb
  | cons o ops ih =>
    intro s b hb
    rcases List.mem_append.mp hb with hb | hb
    · exact h s o List.mem_cons_self b hb
    · exact ih (fun s o ho => h s o (List.mem_cons_of_mem _ ho)) _ b hb

/-- `t` is `s` after the machine has put something out on the inputs: it is in
the log, and the state is the machine's. -/
def Emits {γ : Type*} (log : γ → List β) (st : γ → σ) (f : σ → ι → List β × σ) (s : γ) (ops : List ι) (t : γ) : Prop :=
  log t = log s ++ (emit f (st s) ops).1 ∧ st t = (emit f (st s) ops).2

section
variable {γ : Type*} {log : γ → List β} {st : γ → σ} {s t u : γ}

theorem Emits.refl (hl : log t = log s) (hs : st t = st s) : Emits log st f s [] t := by
  refine ⟨?_, hs⟩
  rw [hl, emit_nil, List.append_nil]

theorem Emits.trans {a b : List ι} (h : Emits log st f s a t) (h' : Emits log st f t b u) :
    Emits log st f s (a ++ b) u := by
  rw [Emits, emit_append, ← List.append_assoc]
  exact ⟨by rw [h'.1, h.1, h.2], by rw [h'.2, h.2]⟩

theorem Emits.cons {o : ι} {ops : List ι} (h : Emits log st f s [o] t) (h' : Emits log st f t ops u) :
    Emits log st f s (o :: ops) u := h.trans h'

theorem emits_one {o : ι} (hl : log t = log s ++ (f (st s) o).1) (hs : st t = (f (st s) o).2) :
    Emits log st f s [o] t := by
  refine ⟨?_, hs⟩
  rw [hl, emit, emit_nil, List.append_nil]

/-- **Refinement.** -/
theorem run_emits {step : γ → ι → γ} (h : ∀ s o, Emits log st f s [o] (step s o)) :
    ∀ (ops : List ι) (s : γ), Emits log st f s ops (run step s ops)
  | [], _ => .refl rfl rfl
  | o :: ops, s => (h s o).cons (run_emits h ops (step s o))

end

end Runs

import Ryklys.CleanupThread

/-!
# What the cleanup thread may remove

Between listing a directory and removing it the cleanup thread sees nothing of
the PUTs. In the runs in which a directory that it removes is as it was listed,
with no PUT at work in it, no fresh segment goes and no PUT fails
(`fresh_kept`).
-/

namespace Ryklys

open Runs

/-! ## The newest write time -/

theorem foldl_newer (files : List (Sigma fun _ : Bytes => Nat)) : ∀ newest : Option Nat,
    (∀ w, newest = some w → ∃ w', files.foldl (fun newest file => newer newest file.2) newest = some w' ∧ w ≤ w') ∧
    ∀ file ∈ files, ∃ w', files.foldl (fun newest file => newer newest file.2) newest = some w' ∧ file.2 ≤ w' := by
  induction files with
  | nil =>
    intro newest
    exact ⟨fun w hw => ⟨w, hw, Nat.le_refl _⟩, by simp⟩
  | cons file files ih =>
    intro newest
    obtain ⟨h1, h2⟩ := ih (newer newest file.2)
    have hnewer : ∃ w, newer newest file.2 = some w ∧ file.2 ≤ w ∧ ∀ a, newest = some a → a ≤ w := by
      cases newest with
      | none => exact ⟨file.2, rfl, Nat.le_refl _, by simp⟩
      | some a =>
        unfold newer
        simp only
        split
        · exact ⟨file.2, rfl, Nat.le_refl _, by simp; omega⟩
        · exact ⟨a, rfl, by omega, by simp⟩
    obtain ⟨w, hw, hfile, hold⟩ := hnewer
    obtain ⟨w', hw', hle⟩ := h1 w hw
    refine ⟨fun a ha => ⟨w', hw', Nat.le_trans (hold a ha) hle⟩, fun f hf => ?_⟩
    rcases List.mem_cons.mp hf with rfl | hf
    · exact ⟨w', hw', Nat.le_trans hfile hle⟩
    · exact h2 f hf

theorem le_newestWrite {files : DirFiles} {name : Bytes} {m : Nat} (h : files.lookup name = some m) :
    ∃ w, newestWrite files = some w ∧ m ≤ w :=
  (foldl_newer files.entries none).2 _ (AList.mem_lookup_iff.mp h)

namespace PocketThreads

/-! ## One step -/

/-- When the pass at hand started. -/
def passStart (s : PocketThreads) : Option Nat :=
  match s.cleanup with
  | .sleeping => none
  | .scanning now => some now
  | .listed now _ _ => some now

structure Inv (s : PocketThreads) : Prop where
  stored : ∀ dir name t, s.answered dir name = some t → s.clock < t + maxAge →
    ∃ m, s.file dir name = some m ∧ t ≤ m
  answered_le : ∀ dir name t, s.answered dir name = some t → t ≤ s.clock
  pass_le : ∀ now, s.passStart = some now → now ≤ s.clock
  created : ∀ dir name, s.put = .created dir name → (s.dirs.lookup dir).isSome
  opened : ∀ dir name, s.put = .opened dir name → (s.file dir name).isSome
  served : s.swept = false

variable {s : PocketThreads}

theorem lookup_of_file {dir name : Bytes} (h : (s.file dir name).isSome) : (s.dirs.lookup dir).isSome := by
  unfold file at h
  cases hd : s.dirs.lookup dir with
  | none => simp [hd] at h
  | some files => rfl

theorem file_touch {dir name dir' name' : Bytes} (hd : (s.dirs.lookup dir).isSome) :
    ({ s with dirs := s.touch dir name } : PocketThreads).file dir' name' =
      if dir' = dir ∧ name' = name then some s.clock else s.file dir' name' := by
  obtain ⟨files, hf⟩ := Option.isSome_iff_exists.mp hd
  simp only [file, touch, hf]
  by_cases hdir : dir' = dir
  · subst hdir
    rw [AList.lookup_insert, hf]
    by_cases hname : name' = name
    · subst hname
      simp
    · simp [hname, AList.lookup_insert_ne hname]
  · rw [AList.lookup_insert_ne hdir]
    simp [hdir]

theorem file_touch_self {dir : Bytes} (name : Bytes) (hd : (s.dirs.lookup dir).isSome) :
    ({ s with dirs := s.touch dir name } : PocketThreads).file dir name = some s.clock := by
  rw [file_touch hd, if_pos ⟨rfl, rfl⟩]

theorem inv_tick (h : Inv s) (n : Nat) : Inv (s.step (.tick n)) := by
  refine ⟨fun dir name t ha hlt => ?_, fun dir name t ha => ?_, fun now hn => ?_, h.created, h.opened, h.served⟩
  · simp only [step] at ha hlt
    exact h.stored dir name t ha (by omega)
  · have := h.answered_le dir name t ha
    simp only [step]
    omega
  · have := h.pass_le now hn
    simp only [step]
    omega

/-- The cleanup thread removes a directory that no fresh file and no PUT is in. -/
theorem inv_erase (h : Inv s) {dir : Bytes} (hput : s.put.dir ≠ some dir)
    (hold : ∀ name m, s.file dir name = some m → m + maxAge < s.clock) : Inv { s with dirs := s.dirs.erase dir } := by
  have hother : ∀ dir', dir' ≠ dir → (s.dirs.erase dir).lookup dir' = s.dirs.lookup dir' := fun dir' hne =>
    AList.lookup_erase_ne hne
  refine ⟨fun dir' name t ha hlt => ?_, h.answered_le, h.pass_le, fun dir' name hp => ?_, fun dir' name hp => ?_,
    h.served⟩
  · obtain ⟨m, hm, hle⟩ := h.stored dir' name t ha hlt
    by_cases hd : dir' = dir
    · subst hd
      have := hold name m hm
      simp only at hlt
      omega
    · exact ⟨m, by simpa [file, hother dir' hd] using hm, hle⟩
  · have hd : dir' ≠ dir := by
      rintro rfl
      exact hput (by simp only at hp; rw [hp]; rfl)
    simp only [hother dir' hd]
    exact h.created dir' name hp
  · have hd : dir' ≠ dir := by
      rintro rfl
      exact hput (by simp only at hp; rw [hp]; rfl)
    have hf := h.opened dir' name hp
    simpa [file, hother dir' hd] using hf

theorem inv_cleanup (h : Inv s) {pc : CleanupPc} (hpc : ∀ now, ({ s with cleanup := pc } : PocketThreads).passStart =
    some now → now ≤ s.clock) : Inv { s with cleanup := pc } :=
  ⟨h.stored, h.answered_le, hpc, h.created, h.opened, h.served⟩

theorem inv_remove (h : Inv s) (hu : s.Undisturbed .remove) : Inv (s.step .remove) := by
  cases hc : s.cleanup with
  | sleeping => simpa only [step, hc] using h
  | scanning now => simpa only [step, hc] using h
  | listed now dir newest =>
    have hnow : now ≤ s.clock := h.pass_le now (by simp only [passStart, hc])
    have hpass : Inv { s with cleanup := .scanning now } := by
      refine inv_cleanup h ?_
      intro now' hn
      simp only [passStart, Option.some.injEq] at hn
      omega
    simp only [step, hc]
    by_cases hst : stale now newest = true
    · rw [if_pos hst]
      cases hl : s.dirs.lookup dir with
      | none =>
        have hnot : dir ∉ s.dirs := AList.lookup_eq_none.mp hl
        have herase : s.dirs.erase dir = s.dirs := by
          apply AList.ext
          exact List.kerase_of_notMem_keys hnot
        rw [herase]
        exact hpass
      | some files =>
        simp only [Undisturbed, hc, hl] at hu
        obtain ⟨hnewest, hput⟩ := hu hst
        refine inv_erase hpass hput ?_
        -- the newest write time found was already too old for the pass
        intro name m hm
        have hm' : files.lookup name = some m := by simpa [file, hl] using hm
        obtain ⟨w, hw, hle⟩ := le_newestWrite hm'
        rw [← hnewest, hw, stale, decide_eq_true_eq] at hst
        simp only
        omega
    · rw [if_neg hst]
      exact hpass

theorem inv_createDirectories (h : Inv s) (dir name : Bytes) : Inv (s.step (.createDirectories dir name)) := by
  simp only [step]
  split
  · by_cases hd : (s.dirs.lookup dir).isSome = true
    · rw [if_pos hd]
      refine ⟨h.stored, h.answered_le, h.pass_le, fun dir' name' hp => ?_, (fun dir' name' hp => by cases hp),
        h.served⟩
      cases hp
      exact hd
    · rw [if_neg hd]
      have hfile : ∀ dir' name', (s.file dir' name').isSome → dir' ≠ dir := by
        rintro dir' name' hf rfl
        exact hd (lookup_of_file hf)
      refine ⟨fun dir' name' t ha hlt => ?_, h.answered_le, h.pass_le, fun dir' name' hp => ?_,
        (fun dir' name' hp => by cases hp), h.served⟩
      · obtain ⟨m, hm, hle⟩ := h.stored dir' name' t ha hlt
        have hne := hfile dir' name' (by rw [hm]; rfl)
        refine ⟨m, ?_, hle⟩
        simpa [file, AList.lookup_insert_ne hne] using hm
      · cases hp
        simp
  · exact h

theorem stored_touch (h : Inv s) {dir name : Bytes} (hd : (s.dirs.lookup dir).isSome) {dir' name' : Bytes} {t : Nat}
    (ha : s.answered dir' name' = some t) (hlt : s.clock < t + maxAge) :
    ∃ m, ({ s with dirs := s.touch dir name } : PocketThreads).file dir' name' = some m ∧ t ≤ m := by
  rw [file_touch hd]
  split
  · exact ⟨s.clock, rfl, h.answered_le dir' name' t ha⟩
  · exact h.stored dir' name' t ha hlt

theorem inv_openFile (h : Inv s) (opens : Bool) : Inv (s.step (.openFile opens)) := by
  cases hp : s.put with
  | idle => simpa only [step, hp] using h
  | opened dir name => simpa only [step, hp] using h
  | created dir name =>
    have hd := h.created dir name hp
    simp only [step, hp, if_pos hd]
    cases opens with
    | false =>
      exact ⟨h.stored, h.answered_le, h.pass_le, (fun _ _ hq => by cases hq), (fun _ _ hq => by cases hq), h.served⟩
    | true =>
      refine ⟨fun dir' name' t ha hlt => stored_touch h hd ha hlt, h.answered_le, h.pass_le,
        (fun _ _ hq => by cases hq), fun dir' name' hq => ?_, h.served⟩
      cases hq
      exact (congrArg Option.isSome (file_touch_self name hd)).trans rfl

theorem inv_write (h : Inv s) : Inv (s.step .write) := by
  cases hp : s.put with
  | idle => simpa only [step, hp] using h
  | created dir name => simpa only [step, hp] using h
  | opened dir name =>
    have hf := h.opened dir name hp
    have hd := lookup_of_file hf
    have hnow : ∀ dir' name' t,
        Function.update s.answered dir (Function.update (s.answered dir) name (some s.clock)) dir' name' = some t →
        s.answered dir' name' = some t ∨ (dir' = dir ∧ name' = name ∧ t = s.clock) := by
      intro dir' name' t ha
      by_cases hdir : dir' = dir
      · subst hdir
        rw [Function.update_self] at ha
        by_cases hname : name' = name
        · subst hname
          rw [Function.update_self, Option.some.injEq] at ha
          exact Or.inr ⟨rfl, rfl, ha.symm⟩
        · rw [Function.update_of_ne hname] at ha
          exact Or.inl ha
      · rw [Function.update_of_ne hdir] at ha
        exact Or.inl ha
    simp only [step, hp, if_pos hf]
    refine ⟨fun dir' name' t ha hlt => ?_, fun dir' name' t ha => ?_, h.pass_le, (fun _ _ hq => by cases hq),
      (fun _ _ hq => by cases hq), h.served⟩
    · rcases hnow dir' name' t ha with ha | ⟨rfl, rfl, rfl⟩
      · exact stored_touch h hd ha hlt
      · exact ⟨s.clock, file_touch_self name' hd, Nat.le_refl _⟩
    · rcases hnow dir' name' t ha with ha | ⟨-, -, rfl⟩
      · exact h.answered_le dir' name' t ha
      · exact Nat.le_refl _

theorem inv_step (s : PocketThreads) (o : PocketOp) (h : Inv s) (hu : s.Undisturbed o) : Inv (s.step o) := by
  cases o with
  | tick n => exact inv_tick h n
  | wake =>
    simp only [step]
    split
    · refine inv_cleanup h fun now hn => ?_
      cases hn
      exact Nat.le_refl _
    · exact h
  | list dir =>
    simp only [step]
    split
    · rename_i now files hc hl
      refine inv_cleanup h fun now' hn => h.pass_le now' ?_
      rw [passStart, hc]
      exact hn
    · exact h
  | remove => exact inv_remove h hu
  | passEnds => exact inv_cleanup h fun now hn => by cases hn
  | createDirectories dir name => exact inv_createDirectories h dir name
  | openFile opens => exact inv_openFile h opens
  | write => exact inv_write h

theorem inv_start (clock : Nat) (dirs : StreamDirs) : Inv { clock, dirs } := by
  refine ⟨?_, ?_, ?_, ?_, ?_, rfl⟩ <;> intros <;> contradiction

theorem Inv.keepsFresh (h : Inv s) : s.KeepsFresh := by
  refine ⟨fun dir name t ha hlt => ?_, h.served⟩
  obtain ⟨m, hm, -⟩ := h.stored dir name t ha hlt
  rw [hm]
  rfl

/-! ## Whole runs -/

/-- **Cleanup.** From any directories, in every run that removes a directory only
as it was listed and with no PUT at work in it, what was answered less than six
hours ago is stored and no PUT loses its directory. -/
theorem fresh_kept (clock : Nat) (dirs : StreamDirs) {ops : List PocketOp}
    (h : EachStep step Undisturbed { clock, dirs } ops) : Always step KeepsFresh { clock, dirs } ops :=
  always_of_inv step inv_step (inv_start clock dirs) (fun _ h => h.keepsFresh) h

/-- A segment is put into a directory that is empty, and comes to be removed with
it after six hours. -/
theorem fresh_kept_put :
    Always step KeepsFresh { clock := 5, dirs := (∅ : StreamDirs).insert (bytes "bob") ∅ }
      [.wake, .list (bytes "bob"), .remove, .createDirectories (bytes "bob") (bytes "a.ts"), .openFile true, .write,
        .passEnds, .tick (maxAge + 1), .wake, .list (bytes "bob"), .remove] :=
  fresh_kept _ _ (by decide)

/-- A directory just made for a PUT is empty and goes; and one that was listed
as expired goes with the segment put into it since. -/
theorem not_keepsFresh :
    ¬ Always step KeepsFresh { clock := 5 }
      [.wake, .createDirectories (bytes "bob") (bytes "a.ts"), .list (bytes "bob"), .remove, .openFile true] ∧
    ¬ Always step KeepsFresh
      { clock := maxAge + 1, dirs := (∅ : StreamDirs).insert (bytes "bob") ((∅ : DirFiles).insert (bytes "a.ts") 0) }
      [.wake, .list (bytes "bob"), .createDirectories (bytes "bob") (bytes "b.ts"), .openFile true, .write,
        .remove] := by
  refine ⟨fun h => ?_, fun h => ?_⟩
  · exact absurd h.last.served (by decide)
  · exact absurd (h.last.stored (bytes "bob") (bytes "b.ts") (maxAge + 1) (by decide) (by decide)) (by decide)

end PocketThreads

end Ryklys

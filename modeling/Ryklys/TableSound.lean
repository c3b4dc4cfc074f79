import Mathlib.Data.List.Perm.Subperm
import Ryklys.ConnectionTable
import Ryklys.Runs

/-!
# The connection tables under interleaving

A locked table update may meet the entry of another socket than the one it is
for. The tables are right exactly on the runs where none does (`stored_iff`).
Orderly runs, where a number is reused only after its erase and a closed socket
is neither upgraded nor closed again, are of that kind (`orderly_keeps`).
-/

namespace Ryklys

open Runs

namespace ConnectionTable

/-- Inserted, and its own close handler has not run. -/
def Live (s : ConnectionTable) (c : Socket) : Prop := c ∈ s.inserted ∧ c ∉ s.closed

/-- Every live socket is stored under its number, and nobody's entry was erased
for another. -/
def Stored (s : ConnectionTable) : Prop :=
  (∀ c, s.Live c → s.connections c.fd = some c ∨ s.wsConnections c.fd = some c) ∧
    ∀ e ∈ s.erased, e.1 = e.2

/-- The condition of a step: the number it writes under is nobody else's. An
insert may meet a live socket of its number that is in the other table. -/
def Keeps (s : ConnectionTable) : TableOp → Prop
  | .insert => ∀ c ∈ s.accepted, ∀ d, s.Live d → d ≠ c → d.fd = c.fd → s.wsConnections d.fd = some d
  | .upgrade c => c ∈ s.inserted → ∀ d, s.Live d → d.fd = c.fd → d = c
  | .erase c => c ∈ s.erasing → ∀ d ∈ s.connections c.fd, d = c
  | _ => True

/-! ## Steps -/

theorem step_cases (s : ConnectionTable) (o : TableOp) :
    (s.step o = s ∧ s.Keeps o) ∨
    (o = .accept ∧ s.accepted = none ∧ s.step o = s.accept) ∨
    (o = .insert ∧ ∃ c, s.accepted = some c ∧ s.step o = s.insert c) ∨
    (∃ c ∈ s.inserted, o = .upgrade c ∧ s.step o = s.upgrade c) ∨
    (∃ c ∈ s.inserted, o = .close c ∧ s.step o = s.close c) ∨
    (∃ c ∈ s.erasing, o = .erase c ∧ s.step o = s.erase c) := by
  cases o with
  | accept => by_cases h : s.accepted = none <;> simp [step, Keeps, h]
  | insert => cases h : s.accepted <;> simp [step, Keeps, h]
  | upgrade c => by_cases h : c ∈ s.inserted <;> simp [step, Keeps, h]
  | close c => by_cases h : c ∈ s.inserted <;> simp [step, Keeps, h]
  | erase c => by_cases h : c ∈ s.erasing <;> simp [step, Keeps, h]

theorem erasing_closed (s : ConnectionTable) (o : TableOp) (h : ∀ c ∈ s.erasing, c ∈ s.closed) :
    ∀ c ∈ (s.step o).erasing, c ∈ (s.step o).closed := by
  rcases step_cases s o with
    ⟨he, -⟩ | ⟨-, -, he⟩ | ⟨-, c, -, he⟩ | ⟨c, -, -, he⟩ | ⟨c, -, -, he⟩ | ⟨c, -, -, he⟩ <;> rw [he]
  · exact h
  · exact h
  · exact h
  · exact h
  · intro d hd
    rcases List.mem_cons.mp hd with rfl | hd
    · exact List.mem_cons_self
    · exact List.mem_cons_of_mem _ (h d hd)
  · exact fun d hd => h d (List.mem_of_mem_erase hd)

section
variable {s : ConnectionTable} (h : s.Stored)
include h

theorem insert_stored {c : Socket} :
    (s.insert c).Stored ↔ ∀ d, s.Live d → d ≠ c → d.fd = c.fd → s.wsConnections d.fd = some d := by
  constructor
  · intro ⟨hs, _⟩ d hd hne hfd
    rcases hs d ⟨List.mem_cons_of_mem _ hd.1, hd.2⟩ with hx | hx
    · rw [insert_connections, hfd, setAt_self, Option.some.injEq] at hx
      exact absurd hx.symm hne
    · exact hx
  · refine fun hk => ⟨fun d hd => ?_, h.2⟩
    by_cases hne : d = c
    · subst hne
      exact Or.inl (setAt_self _ _ _)
    have hd' : s.Live d := ⟨(List.mem_cons.mp hd.1).resolve_left hne, hd.2⟩
    by_cases hfd : d.fd = c.fd
    · exact Or.inr (hk d hd' hne hfd)
    · rw [insert_connections, setAt_ne hfd]
      exact h.1 d hd'

theorem upgrade_stored {c : Socket} : (s.upgrade c).Stored ↔ ∀ d, s.Live d → d.fd = c.fd → d = c := by
  constructor
  · intro ⟨hs, _⟩ d hd hfd
    rcases hs d hd with hx | hx
    · rw [upgrade_connections, hfd, setAt_self] at hx
      cases hx
    · rw [upgrade_wsConnections, hfd, setAt_self, Option.some.injEq] at hx
      exact hx.symm
  · refine fun hk => ⟨fun d hd => ?_, h.2⟩
    by_cases hfd : d.fd = c.fd
    · rw [hk d hd hfd]
      exact Or.inr (setAt_self _ _ _)
    · rw [upgrade_connections, upgrade_wsConnections, setAt_ne hfd, setAt_ne hfd]
      exact h.1 d hd

theorem erase_stored {c : Socket} (hc : c ∈ s.closed) :
    (s.erase c).Stored ↔ ∀ d ∈ s.connections c.fd, d = c := by
  constructor
  · intro ⟨_, he⟩ d hd
    exact (he (c, d) (List.mem_append_right _ (List.mem_map.mpr ⟨d, Option.mem_toList.mpr hd, rfl⟩))).symm
  · refine fun hk => ⟨fun d hd => ?_, fun e he => ?_⟩
    · by_cases hfd : d.fd = c.fd
      -- the entry erased is the closing socket's own, so `d` is not the one it held
      · refine (h.1 d hd).elim (fun hx => ?_) Or.inr
        rw [hk d (hfd ▸ hx)] at hd
        exact absurd hc hd.2
      · rw [erase_connections, setAt_ne hfd]
        exact h.1 d hd
    · rcases List.mem_append.mp he with he | he
      · exact h.2 e he
      · obtain ⟨d, hd, rfl⟩ := List.mem_map.mp he
        exact (hk d (Option.mem_toList.mp hd)).symm

end

theorem step_stored (s : ConnectionTable) (o : TableOp) (he : ∀ c ∈ s.erasing, c ∈ s.closed) (h : s.Stored) :
    (s.step o).Stored ↔ s.Keeps o := by
  rcases step_cases s o with
    ⟨hs, hk⟩ | ⟨rfl, -, hs⟩ | ⟨rfl, c, hc, hs⟩ | ⟨c, hc, rfl, hs⟩ | ⟨c, hc, rfl, hs⟩ | ⟨c, hc, rfl, hs⟩ <;> rw [hs]
  · exact iff_of_true h hk
  · exact iff_of_true h trivial
  · simpa [Keeps, hc] using insert_stored h
  · simpa [Keeps, hc] using upgrade_stored h
  · exact iff_of_true ⟨fun d hd => h.1 d ⟨hd.1, fun hx => hd.2 (List.mem_cons_of_mem _ hx)⟩, h.2⟩ trivial
  · simpa [Keeps, hc] using erase_stored h (he c hc)

/-! ## Orderly runs -/

theorem lowestFree_not_mem (openFds : List Nat) : lowestFree openFds ∉ openFds := by
  unfold lowestFree
  cases h : (List.range (openFds.length + 1)).find? (· ∉ openFds) with
  | some n => simpa using List.find?_some h
  | none =>
    exfalso
    have hall : List.range (openFds.length + 1) ⊆ openFds := fun n hn => by
      simpa using List.find?_eq_none.mp h n hn
    have := (List.subperm_of_subset List.nodup_range hall).length_le
    rw [List.length_range] at this
    omega

/-- A number is handed out only after the erase for its last socket, and a
closed socket is neither upgraded nor closed again. -/
def Orderly (s : ConnectionTable) : TableOp → Prop
  | .accept => s.accepted = none → ∀ c ∈ s.erasing, c.fd ≠ lowestFree s.openFds
  | .upgrade c => c ∉ s.closed
  | .close c => c ∉ s.closed
  | _ => True

def Open (s : ConnectionTable) (c : Socket) : Prop := s.accepted = some c ∨ s.Live c

theorem insert_open {s : ConnectionTable} {c d : Socket} (hc : s.accepted = some c) (hd : (s.insert c).Open d) :
    s.Open d := by
  rcases hd with e | ⟨hi, hn⟩
  · cases e
  · exact (List.mem_cons.mp hi).elim (fun e => Or.inl (e ▸ hc)) fun hi => Or.inr ⟨hi, hn⟩

/-- Open sockets have different numbers, and `connections` has none but live
ones and those awaiting their erase. -/
structure Numbered (s : ConnectionTable) : Prop where
  serial_lt : ∀ c ∈ s.inserted, c.serial < s.serials
  accepted_lt : ∀ c, s.accepted = some c → c.serial < s.serials
  accepted_new : ∀ c, s.accepted = some c → c ∉ s.inserted
  closed_inserted : ∀ c ∈ s.closed, c ∈ s.inserted
  open_fd : ∀ c, s.Open c → c.fd ∈ s.openFds
  open_inj : ∀ c d, s.Open c → s.Open d → c.fd = d.fd → c = d
  entry : ∀ fd d, s.connections fd = some d → d.fd = fd ∧ (s.Live d ∨ d ∈ s.erasing)

namespace Numbered

theorem start (reserved : List Nat) : (start reserved).Numbered where
  serial_lt _ h := by cases h
  accepted_lt _ h := by cases h
  accepted_new _ h := by cases h
  closed_inserted _ h := by cases h
  open_fd _ h := h.elim (fun h => by cases h) fun h => by cases h.1
  open_inj _ _ h := h.elim (fun h => by cases h) fun h => by cases h.1
  entry _ _ h := by cases h

variable {s : ConnectionTable} (h : s.Numbered)
include h

theorem accept_open {c : Socket} (hc : s.accept.Open c) :
    c = ⟨s.serials, lowestFree s.openFds⟩ ∨ s.Live c ∧ c.fd ≠ lowestFree s.openFds := by
  rcases hc with e | hl
  · exact Or.inl (Option.some.inj e).symm
  · exact Or.inr ⟨hl, fun e => lowestFree_not_mem s.openFds (e ▸ h.open_fd c (Or.inr hl))⟩

theorem accept : s.accept.Numbered := by
  refine { serial_lt := fun c hc => Nat.lt_succ_of_lt (h.serial_lt c hc), accepted_lt := ?_, accepted_new := ?_,
           closed_inserted := h.closed_inserted, open_fd := ?_, open_inj := ?_, entry := h.entry }
  · intro c hc
    rw [← Option.some.inj hc]
    exact Nat.lt_succ_self _
  · intro c hc hi
    rw [← Option.some.inj hc] at hi
    exact Nat.lt_irrefl _ (h.serial_lt _ hi)
  · intro c hc
    rcases h.accept_open hc with rfl | ⟨hl, _⟩
    · exact List.mem_cons_self
    · exact List.mem_cons_of_mem _ (h.open_fd c (Or.inr hl))
  · intro c d hc hd hfd
    rcases h.accept_open hc with rfl | ⟨hlc, hnc⟩ <;> rcases h.accept_open hd with rfl | ⟨hld, hnd⟩
    · rfl
    · exact absurd hfd.symm hnd
    · exact absurd hfd hnc
    · exact h.open_inj c d (Or.inr hlc) (Or.inr hld) hfd

theorem insert {c : Socket} (hc : s.accepted = some c) : (s.insert c).Numbered := by
  have hnew : c ∉ s.closed := fun hx => h.accepted_new c hc (h.closed_inserted c hx)
  refine { serial_lt := ?_, accepted_lt := fun _ e => (by cases e), accepted_new := fun _ e => (by cases e),
           closed_inserted := fun d hd => List.mem_cons_of_mem _ (h.closed_inserted d hd),
           open_fd := fun d hd => h.open_fd d (insert_open hc hd),
           open_inj := fun d e hd he => h.open_inj d e (insert_open hc hd) (insert_open hc he), entry := ?_ }
  · intro d hd
    rcases List.mem_cons.mp hd with rfl | hd
    · exact h.accepted_lt d hc
    · exact h.serial_lt d hd
  · intro fd d hd
    by_cases hfd : fd = c.fd
    · rw [insert_connections, hfd, setAt_self, Option.some.injEq] at hd
      subst hd
      exact ⟨hfd.symm, Or.inl ⟨List.mem_cons_self, hnew⟩⟩
    · rw [insert_connections, setAt_ne hfd] at hd
      obtain ⟨h1, h2⟩ := h.entry fd d hd
      exact ⟨h1, h2.imp_left fun hl => ⟨List.mem_cons_of_mem _ hl.1, hl.2⟩⟩

theorem upgrade (c : Socket) : (s.upgrade c).Numbered :=
  { h with
    entry := fun fd d hd => by
      by_cases hfd : fd = c.fd
      · rw [upgrade_connections, hfd, setAt_self] at hd
        cases hd
      · rw [upgrade_connections, setAt_ne hfd] at hd
        exact h.entry fd d hd }

theorem close_open {c d : Socket} (hi : c ∈ s.inserted) (hd : (s.close c).Open d) : s.Open d ∧ d ≠ c := by
  rcases hd with e | hl
  · exact ⟨Or.inl e, fun hdc => h.accepted_new c (hdc ▸ e) hi⟩
  · exact ⟨Or.inr ⟨hl.1, fun hx => hl.2 (List.mem_cons_of_mem _ hx)⟩, fun hdc => hl.2 (hdc ▸ List.mem_cons_self)⟩

theorem close {c : Socket} (hi : c ∈ s.inserted) (ho : c ∉ s.closed) : (s.close c).Numbered := by
  -- `c` goes from the open sockets to those awaiting their erase and keeps its number
  refine { serial_lt := h.serial_lt, accepted_lt := h.accepted_lt, accepted_new := h.accepted_new,
           closed_inserted := ?_, open_fd := ?_,
           open_inj := fun d e hd he => h.open_inj d e (h.close_open hi hd).1 (h.close_open hi he).1, entry := ?_ }
  · intro d hd
    rcases List.mem_cons.mp hd with rfl | hd
    · exact hi
    · exact h.closed_inserted d hd
  · intro d hd
    obtain ⟨hd, hne⟩ := h.close_open hi hd
    exact List.mem_filter.mpr
      ⟨h.open_fd d hd, by simpa using fun hfd => hne (h.open_inj d c hd (Or.inr ⟨hi, ho⟩) hfd)⟩
  · intro fd d hd
    obtain ⟨h1, hl | he⟩ := h.entry fd d hd
    · by_cases hdc : d = c
      · exact ⟨h1, Or.inr (hdc ▸ List.mem_cons_self)⟩
      · refine ⟨h1, Or.inl ⟨hl.1, fun hx => ?_⟩⟩
        exact (List.mem_cons.mp hx).elim hdc hl.2
    · exact ⟨h1, Or.inr (List.mem_cons_of_mem _ he)⟩

theorem erase (c : Socket) : (s.erase c).Numbered := by
  refine { h with entry := fun fd d hd => ?_ }
  by_cases hfd : fd = c.fd
  · rw [erase_connections, hfd, setAt_self] at hd
    cases hd
  · rw [erase_connections, setAt_ne hfd] at hd
    obtain ⟨h1, h2⟩ := h.entry fd d hd
    refine ⟨h1, h2.imp_right fun he => (List.mem_erase_of_ne fun hdc => hfd ?_).mpr he⟩
    rw [← h1, hdc]

end Numbered

/-- The invariant of orderly runs: open sockets and those awaiting their erase
have different numbers, and `connections` has no others. -/
structure Tidy (s : ConnectionTable) : Prop where
  serial_lt : ∀ c ∈ s.inserted, c.serial < s.serials
  accepted_lt : ∀ c, s.accepted = some c → c.serial < s.serials
  accepted_new : ∀ c, s.accepted = some c → c ∉ s.inserted
  closed_inserted : ∀ c ∈ s.closed, c ∈ s.inserted
  open_fd : ∀ c, s.Open c → c.fd ∈ s.openFds
  open_inj : ∀ c d, s.Open c → s.Open d → c.fd = d.fd → c = d
  erasing_ne : ∀ c ∈ s.erasing, ∀ d, s.Open d → d.fd ≠ c.fd
  erasing_inj : ∀ c ∈ s.erasing, ∀ d ∈ s.erasing, c.fd = d.fd → c = d
  entry : ∀ fd d, s.connections fd = some d → d.fd = fd ∧ (s.Live d ∨ d ∈ s.erasing)

theorem tidy_start (reserved : List Nat) : (start reserved).Tidy :=
  { Numbered.start reserved with erasing_ne := fun _ h => (by cases h), erasing_inj := fun _ h => (by cases h) }

namespace Tidy

variable {s : ConnectionTable} (h : s.Tidy)
include h

theorem numbered : s.Numbered := { h with }

theorem accept (ho : ∀ c ∈ s.erasing, c.fd ≠ lowestFree s.openFds) : s.accept.Tidy := by
  refine { h.numbered.accept with erasing_ne := ?_, erasing_inj := h.erasing_inj }
  intro c hc d hd hfd
  rcases h.numbered.accept_open hd with rfl | ⟨hld, _⟩
  · exact ho c hc hfd.symm
  · exact h.erasing_ne c hc d (Or.inr hld) hfd

theorem insert {c : Socket} (hc : s.accepted = some c) : (s.insert c).Tidy :=
  { h.numbered.insert hc with
    erasing_ne := fun d hd e he => h.erasing_ne d hd e (insert_open hc he)
    erasing_inj := h.erasing_inj }

theorem upgrade (c : Socket) : (s.upgrade c).Tidy :=
  { h.numbered.upgrade c with erasing_ne := h.erasing_ne, erasing_inj := h.erasing_inj }

theorem close {c : Socket} (hi : c ∈ s.inserted) (ho : c ∉ s.closed) : (s.close c).Tidy := by
  have hc : s.Open c := Or.inr ⟨hi, ho⟩
  refine { h.numbered.close hi ho with erasing_ne := ?_, erasing_inj := ?_ }
  · intro e he d hd hfd
    obtain ⟨hopen', hne⟩ := h.numbered.close_open hi hd
    rcases List.mem_cons.mp he with rfl | he'
    · exact hne (h.open_inj d e hopen' hc hfd)
    · exact h.erasing_ne e he' d hopen' hfd
  · intro d hd e he hfd
    rcases List.mem_cons.mp hd with rfl | hd' <;> rcases List.mem_cons.mp he with rfl | he'
    · rfl
    · exact absurd hfd (h.erasing_ne e he' d hc)
    · exact absurd hfd.symm (h.erasing_ne d hd' e hc)
    · exact h.erasing_inj d hd' e he' hfd

theorem erase (c : Socket) : (s.erase c).Tidy := by
  have hmem : ∀ d, d ∈ (s.erase c).erasing → d ∈ s.erasing := fun d hd => List.mem_of_mem_erase hd
  exact { h.numbered.erase c with
    erasing_ne := fun d hd => h.erasing_ne d (hmem d hd)
    erasing_inj := fun d hd e he => h.erasing_inj d (hmem d hd) e (hmem e he) }

theorem step (o : TableOp) (ho : s.Orderly o) : (s.step o).Tidy := by
  rcases step_cases s o with
    ⟨hs, -⟩ | ⟨rfl, hn, hs⟩ | ⟨rfl, c, hc, hs⟩ | ⟨c, hc, rfl, hs⟩ | ⟨c, hc, rfl, hs⟩ | ⟨c, hc, rfl, hs⟩ <;> rw [hs]
  · exact h
  · exact h.accept (ho hn)
  · exact h.insert hc
  · exact h.upgrade c
  · exact h.close hc ho
  · exact h.erase c

theorem keeps (o : TableOp) (ho : s.Orderly o) : s.Keeps o := by
  cases o with
  | accept => trivial
  | insert => exact fun c hc d hd hne hfd => absurd (h.open_inj d c (Or.inr hd) (Or.inl hc) hfd) hne
  | upgrade c => exact fun hc d hd hfd => h.open_inj d c (Or.inr hd) (Or.inr ⟨hc, ho⟩) hfd
  | close c => trivial
  | erase c =>
    intro hc d hd
    obtain ⟨h1, hl | he⟩ := h.entry c.fd d hd
    · exact absurd h1 (h.erasing_ne c hc d (Or.inr hl))
    · exact h.erasing_inj d he c hc h1

end Tidy

/-- **Orderly runs.** They meet the condition of every step, so their tables
are right. -/
theorem orderly_keeps {reserved : List Nat} {ops : List TableOp} (h : EachStep step Orderly (start reserved) ops) :
    EachStep step Keeps (start reserved) ops := by
  intro pre o hpre
  have ht : Always step Tidy (start reserved) ops :=
    always_of_inv step (fun _ o ht ho => ht.step o ho) (tidy_start reserved) (fun _ ht => ht) h
  exact (ht pre ((List.prefix_append _ _).trans hpre)).keeps o (h pre o hpre)

end ConnectionTable

open ConnectionTable in
/-- **Connection tables.** In every state of a run each live socket is stored
and only own entries were erased, exactly when every step meets its condition. -/
theorem stored_iff (reserved : List Nat) (ops : List TableOp) :
    Always step Stored (start reserved) ops ↔ EachStep step Keeps (start reserved) ops :=
  always_iff step (J := fun s => ∀ c ∈ s.erasing, c ∈ s.closed) erasing_closed step_stored
    (fun _ hc => by cases hc) ⟨fun _ hc => (by cases hc.1), fun _ he => (by cases he)⟩

/-- A number closed, reused and only then erased: the new socket's entry goes. -/
theorem not_stored : ¬ Always ConnectionTable.step ConnectionTable.Stored (.start [0, 1, 2, 3])
    [.accept, .insert, .close ⟨0, 4⟩, .accept, .insert, .erase ⟨0, 4⟩] := fun h =>
  absurd ((h.last ConnectionTable.step).1 ⟨1, 4⟩ ⟨by decide, by decide⟩) (by decide)

end Ryklys

import Ryklys.ConnectionRelease
import Ryklys.TableSound

/-!
# A closed peer is released

Only the HUP branch releases anything, and only in `connections`; StreamPocket
does not take it for an event with data. A socket whose end is handled is closed
once and in neither table in the runs where every job that finds the peer gone
has the flags for that branch and gets to it, for a socket that is not upgraded
and not closed before (`released`).
-/

namespace Ryklys

open Runs ConnectionTable

namespace Release

def Gone (s : Release) (c : Socket) : Prop :=
  (∀ fd, s.table.connections fd ≠ some c ∧ s.table.wsConnections fd ≠ some c) ∧ s.table.closed.count c = 1

/-- What is handled is gone, and no number is in both tables. -/
def Released (s : Release) : Prop :=
  (∀ c ∈ s.handled, s.Gone c) ∧ ∀ fd, s.table.connections fd = none ∨ s.table.wsConnections fd = none

/-- The job's event closes the connection after this step, unless that has
been done already. -/
def Closes (s : Release) (job : Job) : Prop := job.events.closes s.pocket = true ∨ job.conn ∈ s.handled

def Clean (s : Release) : ReleaseOp → Prop
  | .report c _ events => events.hup = true → events.closes s.pocket = true ∨ c ∈ s.handled
  | .recvEnds j stop => ∀ job ∈ s.jobs[j]?, job.at_ = .reading → stop = .eagain ∨ s.Closes job
  | .sendEnds j failed => ∀ job ∈ s.jobs[j]?, job.at_ = .writing → failed = false ∨ s.Closes job
  | .throws j =>
    ∀ job ∈ s.jobs[j]?, job.at_ = .handling ∨ job.at_ = .setup →
      job.events.closes s.pocket = false ∨ job.conn ∈ s.handled
  | .upgrade j => ∀ job ∈ s.jobs[j]?, job.at_ = .handling → job.webSocket = false → job.conn ∉ s.table.closed
  | .close j => ∀ job ∈ s.jobs[j]?, job.at_ = .closing → job.conn ∉ s.table.closed ∧ job.conn ∉ s.upgraded
  | _ => True

instance (s : Release) (o : ReleaseOp) : Decidable (s.Clean o) := by
  cases o <;> unfold Clean Closes <;> infer_instance

structure Kept (s : Release) : Prop where
  numbered : s.table.Numbered
  closed_nodup : s.table.closed.Nodup
  erasing_nodup : s.table.erasing.Nodup
  erasing_closed : ∀ c ∈ s.table.erasing, c ∈ s.table.closed
  ws : ∀ fd d, s.table.wsConnections fd = some d →
    d.fd = fd ∧ s.table.Live d ∧ d ∈ s.upgraded ∧ s.table.connections fd = none
  inserted : ∀ job ∈ s.jobs, job.conn ∈ s.table.inserted
  at_erasing : ∀ job ∈ s.jobs, job.at_ = .erasing → job.conn ∈ s.table.closed
  noticed : ∀ job ∈ s.jobs, job.noticed = true → s.Closes job
  handled : ∀ c ∈ s.handled, c ∈ s.table.closed ∧ c ∉ s.table.erasing

theorem kept_start (pocket : Bool) (reserved : List Nat) : (start pocket reserved).Kept where
  numbered := .start reserved
  closed_nodup := .nil
  erasing_nodup := .nil
  erasing_closed _ h := by cases h
  ws _ _ h := by cases h
  inserted _ h := by cases h
  at_erasing _ h := by cases h
  noticed _ h := by cases h
  handled _ h := by cases h

theorem ofJob_cases {s : Release} {P : Release → Prop} {j : Nat} {from_ : List JobAt} {f : Job → Release} (hs : P s)
    (hf : ∀ job, s.jobs[j]? = some job → job.at_ ∈ from_ → P (f job)) : P (s.ofJob j from_ f) := by
  unfold ofJob
  cases hj : s.jobs[j]? with
  | none => exact hs
  | some job => exact or_stay hs (hf job hj)

/-! ## The flags -/

theorem afterWritable_cases (pocket : Bool) (e : EventFlags) :
    e.closes pocket = true ∧ e.afterWritable pocket = .closing ∨
      e.closes pocket = false ∧ e.afterWritable pocket = .done := by
  unfold EventFlags.afterWritable
  cases e.closes pocket <;> simp

theorem afterReadable_cases (pocket : Bool) (e : EventFlags) :
    e.afterReadable pocket = .writing ∨ e.closes pocket = true ∧ e.afterReadable pocket = .closing ∨
      e.closes pocket = false ∧ e.afterReadable pocket = .done := by
  unfold EventFlags.afterReadable
  by_cases h : e.epollout = true
  · exact Or.inl (if_pos h)
  · rw [if_neg h]
    exact Or.inr (afterWritable_cases pocket e)

theorem first_ne_erasing (pocket : Bool) (e : EventFlags) : e.first pocket ≠ .erasing := by
  unfold EventFlags.first
  by_cases h : e.epollin = true
  · rw [if_pos h]
    decide
  · rw [if_neg h]
    rcases afterReadable_cases pocket e with he | ⟨_, he⟩ | ⟨_, he⟩ <;> rw [he] <;> decide

namespace Kept

variable {s : Release} (h : s.Kept)
include h

theorem all_released : s.Released := by
  refine ⟨fun c hc => ⟨fun fd => ⟨fun he => ?_, fun he => ?_⟩, ?_⟩, fun fd => ?_⟩
  · obtain ⟨hclosed, herasing⟩ := h.handled c hc
    rcases (h.numbered.entry fd c he).2 with hl | hx
    · exact hl.2 hclosed
    · exact herasing hx
  · exact (h.ws fd c he).2.1.2 (h.handled c hc).1
  · exact List.count_eq_one_of_mem h.closed_nodup (h.handled c hc).1
  · cases hw : s.table.wsConnections fd with
    | none => exact Or.inr rfl
    | some d => exact Or.inl (h.ws fd d hw).2.2.2

/-! ## Jobs -/

theorem report {c : Socket} (hc : c ∈ s.table.inserted) (webSocket : Bool) {events : EventFlags}
    (hup : events.hup = true → events.closes s.pocket = true ∨ c ∈ s.handled) :
    Kept { s with jobs := s.jobs ++ [⟨c, webSocket, events, events.first s.pocket, events.hup⟩] } := by
  refine { h with inserted := fun job hj => ?_, at_erasing := fun job hj he => ?_, noticed := fun job hj hn => ?_ }
  · rcases List.mem_append.mp hj with hj | hj
    · exact h.inserted job hj
    · rw [List.mem_singleton.mp hj]
      exact hc
  · rcases List.mem_append.mp hj with hj | hj
    · exact h.at_erasing job hj he
    · rw [List.mem_singleton.mp hj] at he
      exact absurd he (first_ne_erasing s.pocket events)
  · rcases List.mem_append.mp hj with hj | hj
    · exact h.noticed job hj hn
    · rw [List.mem_singleton.mp hj] at hn ⊢
      exact hup hn

/-- A job moves on: into the erase behind its close, and to its end only with
the connection released if the peer was found gone. -/
theorem moveTo {job : Job} (hi : job.conn ∈ s.table.inserted) (hn : job.noticed = true → s.Closes job) (j : Nat)
    {at_ : JobAt} (he : at_ = .erasing → job.conn ∈ s.table.closed)
    (hd : at_ = .done → job.noticed = true → job.conn ∈ s.table.closed ∧ job.conn ∉ s.table.erasing) :
    (s.moveTo j job at_).Kept := by
  have hmem : ∀ x ∈ (s.moveTo j job at_).jobs, x ∈ s.jobs ∨ x = { job with at_ := at_ } := fun x hx =>
    List.mem_or_eq_of_mem_set hx
  have hkeep : ∀ c ∈ s.handled, c ∈ (s.moveTo j job at_).handled := by
    intro c hc
    unfold Release.moveTo
    split
    · exact List.mem_cons_of_mem _ hc
    · exact hc
  refine { h with inserted := fun x hx => ?_, at_erasing := fun x hx hx' => ?_, noticed := fun x hx hx' => ?_,
                  handled := fun c hc => ?_ }
  · rcases hmem x hx with hx | rfl
    · exact h.inserted x hx
    · exact hi
  · rcases hmem x hx with hx | rfl
    · exact h.at_erasing x hx hx'
    · exact he hx'
  · rcases hmem x hx with hx | rfl
    · exact (h.noticed x hx hx').imp_right (hkeep _)
    · exact (hn hx').imp_right (hkeep _)
  · unfold Release.moveTo at hc
    dsimp only at hc
    split at hc
    · rename_i hdone
      rcases List.mem_cons.mp hc with rfl | hc
      · exact hd hdone.1 hdone.2
      · exact h.handled c hc
    · exact h.handled c hc

/-! ## The tables -/

theorem accept : (s.setTable s.table.accept).Kept := { h with numbered := h.numbered.accept }

theorem insert {c : Socket} (hc : s.table.accepted = some c) : (s.setTable (s.table.insert c)).Kept := by
  have hfree : s.table.wsConnections c.fd = none := by
    cases hw : s.table.wsConnections c.fd with
    | none => rfl
    | some d =>
      -- `d` is open and has the number of the socket just accepted
      obtain ⟨hfd, hl, _⟩ := h.ws c.fd d hw
      have hdc := h.numbered.open_inj d c (Or.inr hl) (Or.inl hc) hfd
      exact absurd (hdc ▸ hl.1) (h.numbered.accepted_new c hc)
  refine { h with numbered := h.numbered.insert hc, ws := fun fd d hd => ?_,
                  inserted := fun job hj => List.mem_cons_of_mem _ (h.inserted job hj) }
  obtain ⟨hfd, hl, hu, hn⟩ := h.ws fd d hd
  refine ⟨hfd, ⟨List.mem_cons_of_mem _ hl.1, hl.2⟩, hu, ?_⟩
  have hne : fd ≠ c.fd := by
    intro he
    rw [he] at hd
    exact absurd (hd.symm.trans hfree) (by simp)
  exact (setAt_ne hne _ _).trans hn

theorem upgrade {c : Socket} (hi : c ∈ s.table.inserted) (hc : c ∉ s.table.closed) :
    ((s.setTable (s.table.upgrade c)).markUpgraded c).Kept := by
  refine { h with numbered := h.numbered.upgrade c, ws := fun fd d hd => ?_ }
  change setAt s.table.wsConnections c.fd (some c) fd = some d at hd
  change d.fd = fd ∧ s.table.Live d ∧ d ∈ c :: s.upgraded ∧ setAt s.table.connections c.fd none fd = none
  by_cases hfd : fd = c.fd
  · rw [hfd, setAt_self] at hd
    cases hd
    rw [hfd, setAt_self]
    exact ⟨rfl, ⟨hi, hc⟩, List.mem_cons_self, rfl⟩
  · rw [setAt_ne hfd] at hd
    obtain ⟨h1, hl, hu, hn⟩ := h.ws fd d hd
    rw [setAt_ne hfd]
    exact ⟨h1, hl, List.mem_cons_of_mem _ hu, hn⟩

theorem close {c : Socket} (hi : c ∈ s.table.inserted) (hc : c ∉ s.table.closed) (hu : c ∉ s.upgraded) :
    (s.setTable (s.table.close c)).Kept := by
  have hmem : ∀ d ∈ s.table.closed, d ∈ c :: s.table.closed := fun d hd => List.mem_cons_of_mem _ hd
  refine { h with numbered := h.numbered.close hi hc, closed_nodup := List.nodup_cons.mpr ⟨hc, h.closed_nodup⟩,
                  erasing_nodup := List.nodup_cons.mpr ⟨fun he => hc (h.erasing_closed c he), h.erasing_nodup⟩,
                  erasing_closed := fun d hd => ?_, ws := fun fd d hd => ?_,
                  at_erasing := fun job hj he => hmem _ (h.at_erasing job hj he), handled := fun d hd => ?_ }
  · rcases List.mem_cons.mp hd with rfl | hd
    · exact List.mem_cons_self
    · exact hmem d (h.erasing_closed d hd)
  · obtain ⟨hfd, hl, hup, hn⟩ := h.ws fd d hd
    refine ⟨hfd, ⟨hl.1, fun hx => ?_⟩, hup, hn⟩
    rcases List.mem_cons.mp hx with rfl | hx
    · exact hu hup
    · exact hl.2 hx
  · obtain ⟨hd1, hd2⟩ := h.handled d hd
    refine ⟨hmem d hd1, fun hx => ?_⟩
    rcases List.mem_cons.mp hx with rfl | hx
    · exact hc hd1
    · exact hd2 hx

theorem erase (c : Socket) : (s.setTable (s.table.erase c)).Kept := by
  refine { h with numbered := h.numbered.erase c, erasing_nodup := h.erasing_nodup.erase c,
                  erasing_closed := fun d hd => h.erasing_closed d (List.mem_of_mem_erase hd),
                  ws := fun fd d hd => ?_, handled := fun d hd => ?_ }
  · obtain ⟨hfd, hl, hu, hn⟩ := h.ws fd d hd
    refine ⟨hfd, hl, hu, ?_⟩
    by_cases he : fd = c.fd
    · rw [he]
      exact setAt_self _ _ _
    · exact (setAt_ne he _ _).trans hn
  · obtain ⟨hd1, hd2⟩ := h.handled d hd
    exact ⟨hd1, fun hx => hd2 (List.mem_of_mem_erase hx)⟩

/-! ## Steps -/

theorem setTable_step {op : TableOp} (hs : s.table.step op = s.table ∨ (s.setTable (s.table.step op)).Kept) :
    (s.setTable (s.table.step op)).Kept := by
  rcases hs with hs | hs
  · rw [hs]
    exact h
  · exact hs

/-- A job that goes on behind a `recv` loop or a `send` goes to its close if
it has to. -/
theorem moveAfter {job : Job} (hi : job.conn ∈ s.table.inserted) (hn : job.noticed = true → s.Closes job) (j : Nat)
    {at_ : JobAt} (ha : at_ ≠ .erasing) (hd : at_ = .done → job.events.closes s.pocket = false ∨ job.conn ∈ s.handled) :
    (s.moveTo j job at_).Kept := by
  refine h.moveTo hi hn j (fun he => absurd he ha) fun hdone hnot => ?_
  refine h.handled _ ?_
  rcases hd hdone with hh | hh
  · refine (hn hnot).resolve_left ?_
    rw [hh]
    decide
  · exact hh

theorem afterReadable (job : Job) (hi : job.conn ∈ s.table.inserted) (hn : job.noticed = true → s.Closes job)
    (j : Nat) : (s.moveTo j job (job.events.afterReadable s.pocket)).Kept := by
  rcases afterReadable_cases s.pocket job.events with he | ⟨_, he⟩ | ⟨hh, he⟩ <;> rw [he]
  · exact h.moveAfter hi hn j (by decide) (fun hd => by cases hd)
  · exact h.moveAfter hi hn j (by decide) (fun hd => by cases hd)
  · exact h.moveAfter hi hn j (by decide) (fun _ => Or.inl hh)

theorem afterWritable (job : Job) (hi : job.conn ∈ s.table.inserted) (hn : job.noticed = true → s.Closes job)
    (j : Nat) : (s.moveTo j job (job.events.afterWritable s.pocket)).Kept := by
  rcases afterWritable_cases s.pocket job.events with ⟨_, he⟩ | ⟨hh, he⟩ <;> rw [he]
  · exact h.moveAfter hi hn j (by decide) (fun hd => by cases hd)
  · exact h.moveAfter hi hn j (by decide) (fun _ => Or.inl hh)

theorem step (o : ReleaseOp) (ho : s.Clean o) : (s.step o).Kept := by
  cases o with
  | accept =>
    refine h.setTable_step ?_
    by_cases ha : s.table.accepted = none
    · rw [ConnectionTable.step, if_pos ha]
      exact Or.inr h.accept
    · exact Or.inl (if_neg ha)
  | insert =>
    refine h.setTable_step ?_
    cases ha : s.table.accepted with
    | none => exact Or.inl (by simp only [ConnectionTable.step, ha])
    | some c =>
      simp only [ConnectionTable.step, ha]
      exact Or.inr (h.insert ha)
  | report c webSocket events => exact or_stay h fun hc => h.report hc.1 webSocket ho
  | recvEnds j stop =>
    refine ofJob_cases h fun job hj hat => ?_
    have hm := List.mem_of_getElem? hj
    have hc := ho job hj (List.mem_singleton.mp hat)
    cases stop with
    | eagain => exact h.moveAfter (h.inserted job hm) (h.noticed job hm) j (by decide) (fun hd => by cases hd)
    | eof | error =>
      exact h.afterReadable { job with noticed := true } (h.inserted job hm) (fun _ => hc.resolve_left (by decide)) j
  | upgrade j =>
    refine ofJob_cases h fun job hj hat => ?_
    have hm := List.mem_of_getElem? hj
    have hi := h.inserted job hm
    by_cases hw : job.webSocket = true
    · rw [if_pos hw]
      exact h
    · rw [if_neg hw, ConnectionTable.step, if_pos hi]
      have hup := h.upgrade hi (ho job hj (List.mem_singleton.mp hat) (Bool.not_eq_true _ ▸ hw))
      exact hup.moveAfter hi (h.noticed job hm) j (by decide) (fun hd => by cases hd)
  | returns j =>
    refine ofJob_cases h fun job hj _ => ?_
    have hm := List.mem_of_getElem? hj
    exact h.afterReadable job (h.inserted job hm) (h.noticed job hm) j
  | throws j =>
    refine ofJob_cases h fun job hj hat => ?_
    have hm := List.mem_of_getElem? hj
    have hat' : job.at_ = .handling ∨ job.at_ = .setup := by simpa using hat
    exact h.moveAfter (h.inserted job hm) (h.noticed job hm) j (by decide) (fun _ => ho job hj hat')
  | sendEnds j failed =>
    refine ofJob_cases h fun job hj hat => ?_
    have hm := List.mem_of_getElem? hj
    have hc := ho job hj (List.mem_singleton.mp hat)
    cases failed with
    | false => exact h.afterWritable job (h.inserted job hm) (h.noticed job hm) j
    | true =>
      exact h.afterWritable { job with noticed := true } (h.inserted job hm) (fun _ => hc.resolve_left (by decide)) j
  | close j =>
    refine ofJob_cases h fun job hj hat => ?_
    have hm := List.mem_of_getElem? hj
    have hi := h.inserted job hm
    obtain ⟨hc, hu⟩ := ho job hj (List.mem_singleton.mp hat)
    rw [ConnectionTable.step, if_pos hi]
    exact (h.close hi hc hu).moveTo hi (h.noticed job hm) j (fun _ => List.mem_cons_self) (fun hd => by cases hd)
  | erase j =>
    refine ofJob_cases h fun job hj hat => ?_
    have hm := List.mem_of_getElem? hj
    have hi := h.inserted job hm
    have hc := h.at_erasing job hm (List.mem_singleton.mp hat)
    by_cases he : job.conn ∈ s.table.erasing
    · rw [ConnectionTable.step, if_pos he]
      exact (h.erase job.conn).moveTo hi (h.noticed job hm) j (fun hx => by cases hx)
        fun _ _ => ⟨hc, h.erasing_nodup.not_mem_erase⟩
    · rw [ConnectionTable.step, if_neg he]
      exact h.moveTo hi (h.noticed job hm) j (fun hx => by cases hx) fun _ _ => ⟨hc, he⟩

end Kept

/-- **Closed peers.** In every state of a run whose steps are all clean, each
socket whose end is handled has been closed once and is in neither table, and
no number is in both. -/
theorem released {pocket : Bool} {reserved : List Nat} {ops : List ReleaseOp}
    (h : EachStep step Clean (start pocket reserved) ops) : Always step Released (start pocket reserved) ops :=
  always_of_inv step (fun _ o hk ho => hk.step o ho) (kept_start pocket reserved) (fun _ hk => hk.all_released) h

def resetRun : List ReleaseOp :=
  [.accept, .insert, .report ⟨0, 4⟩ false { epollin := true, hup := true }, .recvEnds 0 .error, .close 0, .erase 0]

theorem resetRun_released : Always step Released (start false [0, 1, 2, 3]) resetRun := released (by decide)

/-- A FIN is read and nothing is released; a reset of an upgraded connection
closes the number and leaves the object in `ws_connections_`, and the next
socket with that number is in both tables; StreamPocket ignores a reset that is
reported together with EPOLLIN. -/
theorem not_released :
    let c : Socket := ⟨0, 4⟩
    ¬ Always step Released (start false [0, 1, 2, 3])
        [.accept, .insert, .report c false { epollin := true }, .recvEnds 0 .eof] ∧
      ¬ Always step Released (start false [0, 1, 2, 3])
        [.accept, .insert, .report c false { epollin := true }, .recvEnds 0 .eagain, .upgrade 0, .returns 0,
          .report c true { hup := true }, .close 1, .erase 1, .accept, .insert] ∧
      ¬ Always step Released (start true [0, 1, 2, 3]) resetRun := by
  intro c
  refine ⟨?_, ?_, ?_⟩
  · intro h
    exact absurd ((h.last step).1 c (by decide)).2 (by decide)
  · intro h
    exact absurd ((h.last step).2 4) (by decide)
  · intro h
    exact absurd ((h.last step).1 c (by decide)).2 (by decide)

end Release

end Ryklys

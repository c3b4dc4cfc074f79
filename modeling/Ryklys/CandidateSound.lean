import Ryklys.Runs
import Ryklys.SignallingMessages

/-!
# When candidates are handed on exactly once

Until a description is set, the candidates that came are queued and none is
handed on (`Waiting`). The offer hands them on and then empties the queue, both
behind calls that can throw: one that does leaves the queue full and the flag
down, for good or for the next offer to hand all of it on again
(`candidates_twice`). A run stays right exactly when no such call throws
(`candidates_once_iff`).
-/

namespace Ryklys

namespace WebRtc

variable {κ : Type} (X : WebRtc κ)

/-- The candidate of a well-formed candidate message. -/
def candidateOf (m : SignalMessage) : Option κ :=
  if m.opcode = WsOpcode.TEXT then
    match X.readSignal m.data with
    | some (.candidate c) => some c
    | _ => none
  else none

/-- The message is an offer, as far as the constructor of its description can tell. -/
def Offers (m : SignalMessage) : Prop := m.opcode = WsOpcode.TEXT ∧ X.readSignal m.data = some .offer

end WebRtc

/-- A session, and the well-formed candidates that it has received. -/
structure Signalling (κ : Type) where
  session : SignalSession κ := {}
  received : List κ := []

namespace Signalling

variable {κ : Type} (X : WebRtc κ)

def step (s : Signalling κ) (m : SignalMessage) : Signalling κ :=
  ⟨s.session.onMessage X m, s.received ++ (X.candidateOf m).toList⟩

/-- Once a description is set, every candidate received has been handed on, once
and in order, and the next one will be. -/
def HandedOn (s : Signalling κ) : Prop :=
  s.session.remoteDescription = true →
    s.session.added = s.received ∧ s.session.earlyCandidates = [] ∧ s.session.hasRemoteDescription = true

/-- No call of `addRemoteCandidate` throws behind an offer whose description
was set while candidates were waiting. -/
def FlushReturns (s : Signalling κ) (m : SignalMessage) : Prop :=
  X.Offers m → m.setThrows = false → ∀ i < s.session.earlyCandidates.length, m.addThrows i = false

def Waiting (s : Signalling κ) : Prop :=
  s.session.remoteDescription = false →
    s.session.added = [] ∧ s.session.earlyCandidates = s.received ∧ s.session.hasRemoteDescription = false

end Signalling

/-! ## The flush -/

namespace SignalSession

variable {κ : Type}

theorem flush_done (addThrows : Nat → Bool) (queue : List κ) : ∀ i,
    (flush addThrows i queue).2 = true ↔ ∀ j < queue.length, addThrows (i + j) = false := by
  induction queue with
  | nil => intro i; simp [flush]
  | cons queued rest ih =>
    intro i
    rw [flush]
    cases h : addThrows i with
    | true =>
      simp only [if_true, Bool.false_eq_true, false_iff]
      intro hall
      have h0 := hall 0 (Nat.succ_pos _)
      rw [Nat.add_zero, h] at h0
      cases h0
    | false =>
      simp only [Bool.false_eq_true, if_false, ih (i + 1), List.length_cons]
      constructor
      · intro hall j hj
        cases j with
        | zero => rwa [Nat.add_zero]
        | succ j =>
          rw [← Nat.add_assoc, Nat.add_right_comm]
          exact hall j (Nat.lt_of_succ_lt_succ hj)
      · intro hall j hj
        rw [Nat.add_right_comm, Nat.add_assoc]
        exact hall (j + 1) (Nat.succ_lt_succ hj)

theorem flush_calls {addThrows : Nat → Bool} (queue : List κ) : ∀ {i}, (flush addThrows i queue).2 = true →
    (flush addThrows i queue).1 = queue := by
  induction queue with
  | nil => intro i _; rfl
  | cons queued rest ih =>
    intro i h
    rw [flush] at h ⊢
    cases ht : addThrows i with
    | true =>
      rw [ht] at h
      cases h
    | false =>
      rw [ht] at h
      simp only [Bool.false_eq_true, if_false] at h ⊢
      rw [ih h]

theorem offer_described (s : SignalSession κ) (addThrows : Nat → Bool) :
    (s.offer false addThrows).remoteDescription = true := by
  cases h : (flush addThrows 0 s.earlyCandidates).2 <;> simp [offer, h]

/-- An offer whose description is set, and whose flush comes to its end. -/
theorem offer_done {s : SignalSession κ} {addThrows : Nat → Bool}
    (h : ∀ i < s.earlyCandidates.length, addThrows i = false) :
    s.offer false addThrows = { s with
      remoteDescription := true, added := s.added ++ s.earlyCandidates, hasRemoteDescription := true,
      earlyCandidates := [] } := by
  have hdone := (flush_done addThrows s.earlyCandidates 0).mpr fun j hj => by rw [Nat.zero_add]; exact h j hj
  simp only [offer, Bool.false_eq_true, if_false, hdone, if_true, flush_calls _ hdone]

/-- One whose flush is left: nothing is taken from the queue. -/
theorem offer_left {s : SignalSession κ} {addThrows : Nat → Bool}
    (h : ¬ ∀ i < s.earlyCandidates.length, addThrows i = false) :
    (s.offer false addThrows).remoteDescription = true ∧
      (s.offer false addThrows).earlyCandidates = s.earlyCandidates := by
  have hdone : (flush addThrows 0 s.earlyCandidates).2 = false := by
    rw [← Bool.not_eq_true, flush_done]
    intro hall
    exact h fun i hi => by simpa using hall i hi
  simp [offer, hdone]

theorem candidate_added {s : SignalSession κ} (h : s.hasRemoteDescription = true) (c : κ) :
    s.candidate c = { s with added := s.added ++ [c] } := by
  rw [candidate, if_pos h]

theorem candidate_queued {s : SignalSession κ} (h : s.hasRemoteDescription = false) (c : κ) :
    s.candidate c = { s with earlyCandidates := s.earlyCandidates ++ [c] } := by
  rw [candidate, if_neg (by simp [h])]

end SignalSession

/-! ## One message -/

namespace Signalling

variable {κ : Type} {X : WebRtc κ} {s : Signalling κ} {m : SignalMessage}

/-- What a message does: it is skipped, or a candidate, or an offer. -/
theorem step_cases (X : WebRtc κ) (s : Signalling κ) (m : SignalMessage) :
    (¬ X.Offers m ∧ s.step X m = s) ∨
    (∃ c, ¬ X.Offers m ∧ s.step X m = ⟨s.session.candidate c, s.received ++ [c]⟩) ∨
    (X.Offers m ∧ s.step X m = ⟨s.session.offer m.setThrows m.addThrows, s.received⟩) := by
  by_cases hop : m.opcode = WsOpcode.TEXT
  · cases hr : X.readSignal m.data with
    | none =>
      refine .inl ⟨by simp [WebRtc.Offers, hr], ?_⟩
      simp [step, SignalSession.onMessage, WebRtc.candidateOf, hop, hr]
    | some signal =>
      cases signal with
      | offer =>
        refine .inr (.inr ⟨⟨hop, hr⟩, ?_⟩)
        simp [step, SignalSession.onMessage, WebRtc.candidateOf, hop, hr]
      | candidate c =>
        refine .inr (.inl ⟨c, by simp [WebRtc.Offers, hr], ?_⟩)
        simp [step, SignalSession.onMessage, WebRtc.candidateOf, hop, hr]
      | skipped =>
        refine .inl ⟨by simp [WebRtc.Offers, hr], ?_⟩
        simp [step, SignalSession.onMessage, WebRtc.candidateOf, hop, hr]
  · refine .inl ⟨fun h => hop h.1, ?_⟩
    simp [step, SignalSession.onMessage, WebRtc.candidateOf, hop]

theorem waiting_candidate (c : κ) (h : s.Waiting) : Waiting ⟨s.session.candidate c, s.received ++ [c]⟩ := by
  cases hr : s.session.hasRemoteDescription with
  | true =>
    rw [SignalSession.candidate_added hr]
    intro hd
    obtain ⟨-, -, hf⟩ := h hd
    rw [hr] at hf
    cases hf
  | false =>
    rw [SignalSession.candidate_queued hr]
    intro hd
    obtain ⟨ha, he, hf⟩ := h hd
    exact ⟨ha, congrArg (· ++ [c]) he, hf⟩

theorem waiting_step (s : Signalling κ) (m : SignalMessage) (h : s.Waiting) : (s.step X m).Waiting := by
  obtain ⟨-, hs⟩ | ⟨c, -, hs⟩ | ⟨-, hs⟩ := step_cases X s m
  · rwa [hs]
  · rw [hs]
    exact waiting_candidate c h
  · rw [hs]
    cases hset : m.setThrows with
    | true => exact h
    | false =>
      intro hd
      rw [SignalSession.offer_described] at hd
      cases hd

theorem handedOn_candidate (c : κ) (h : s.HandedOn) : HandedOn ⟨s.session.candidate c, s.received ++ [c]⟩ := by
  cases hr : s.session.hasRemoteDescription with
  | true =>
    rw [SignalSession.candidate_added hr]
    intro hd
    obtain ⟨ha, he, hf⟩ := h hd
    exact ⟨congrArg (· ++ [c]) ha, he, hf⟩
  | false =>
    rw [SignalSession.candidate_queued hr]
    intro hd
    obtain ⟨-, -, hf⟩ := h hd
    rw [hr] at hf
    cases hf

theorem handedOn_offer (h : s.HandedOn) (hw : s.Waiting) (addThrows : Nat → Bool) :
    HandedOn ⟨s.session.offer false addThrows, s.received⟩ ↔
      ∀ i < s.session.earlyCandidates.length, addThrows i = false := by
  constructor
  · intro hn
    by_contra hleft
    obtain ⟨hd, he⟩ := SignalSession.offer_left hleft
    have hnil : s.session.earlyCandidates = [] := he.symm.trans (hn hd).2.1
    rw [hnil] at hleft
    exact hleft fun i hi => absurd hi (Nat.not_lt_zero i)
  · intro hall _
    rw [SignalSession.offer_done hall]
    refine ⟨?_, rfl, rfl⟩
    cases hd : s.session.remoteDescription with
    | true =>
      obtain ⟨ha, he, -⟩ := h hd
      simp [ha, he]
    | false =>
      obtain ⟨ha, he, -⟩ := hw hd
      simp [ha, he]

theorem handedOn_step (s : Signalling κ) (m : SignalMessage) (hw : s.Waiting) (h : s.HandedOn) :
    (s.step X m).HandedOn ↔ FlushReturns X s m := by
  obtain ⟨hn, hs⟩ | ⟨c, hn, hs⟩ | ⟨ho, hs⟩ := step_cases X s m
  · rw [hs]
    exact iff_of_true h fun ho => absurd ho hn
  · rw [hs]
    exact iff_of_true (handedOn_candidate c h) fun ho => absurd ho hn
  · rw [hs, FlushReturns]
    cases hset : m.setThrows with
    | true => exact iff_of_true h fun _ hf => by cases hf
    | false =>
      rw [handedOn_offer h hw]
      exact ⟨fun hall _ _ => hall, fun hall => hall ho rfl⟩

/-- **Exactly once.** A run hands its candidates on exactly once, and leaves
none behind, if and only if no flush of early candidates is left by an exception. -/
theorem candidates_once_iff (X : WebRtc κ) (msgs : List SignalMessage) :
    Runs.Always (step X) HandedOn {} msgs ↔ Runs.EachStep (step X) (FlushReturns X) {} msgs :=
  Runs.always_iff (step X) (J := Waiting) waiting_step handedOn_step (fun _ => ⟨rfl, rfl, rfl⟩) fun h => by cases h

/-! ## A flush that is left -/

def hostLine : Bytes := bytes "candidate:1 1 UDP 2122252543 10.0.0.1 50000 typ host"

def relayLine : Bytes := bytes "candidate:2 1 UDP 41885439 10.0.0.2 50001 typ relay"

def candidateText (line : Bytes) : Bytes :=
  bytes "\x7b\"type\":\"candidate\",\"candidate\":\x7b\"candidate\":\"" ++ line ++ bytes "\",\"sdpMid\":\"0\"\x7d\x7d"

def candidateJson (line : Bytes) : Json :=
  .object [(bytes "type", .string (bytes "candidate")), (bytes "candidate",
    .object [(bytes "candidate", .string line), (bytes "sdpMid", .string (bytes "0"))])]

def offerText : Bytes :=
  bytes "\x7b\"type\":\"offer\",\"sdp\":\"v=0\\r\\nm=video 9 UDP/TLS/RTP/SAVPF 96\\r\\na=mid:0\\r\\n\"\x7d"

def offerJson : Json :=
  .object [(bytes "type", .string (bytes "offer")),
    (bytes "sdp", .string (bytes "v=0\r\nm=video 9 UDP/TLS/RTP/SAVPF 96\r\na=mid:0\r\n"))]

/-- A library that knows these three messages and takes them. -/
def sampleRtc : WebRtc (Bytes × Bytes) where
  parseJson data :=
    if data = candidateText hostLine then some (candidateJson hostLine)
    else if data = candidateText relayLine then some (candidateJson relayLine)
    else if data = offerText then some offerJson
    else none
  description _ := true
  candidate line mid := some (line, mid)

/-- The first offer is left in its flush, and the second one hands the same
candidate on again. -/
theorem candidates_twice :
    (Runs.run (step sampleRtc) {} [⟨candidateText hostLine, WsOpcode.TEXT, false, fun _ => false⟩,
      ⟨offerText, WsOpcode.TEXT, false, fun _ => true⟩]).session =
      ⟨true, [(hostLine, bytes "0")], false, [(hostLine, bytes "0")]⟩ ∧
    ¬ HandedOn (Runs.run (step sampleRtc) {} [⟨candidateText hostLine, WsOpcode.TEXT, false, fun _ => false⟩,
      ⟨offerText, WsOpcode.TEXT, false, fun _ => true⟩]) ∧
    Runs.run (step sampleRtc) {} [⟨candidateText hostLine, WsOpcode.TEXT, false, fun _ => false⟩,
      ⟨offerText, WsOpcode.TEXT, false, fun _ => true⟩,
      ⟨candidateText relayLine, WsOpcode.TEXT, false, fun _ => false⟩,
      ⟨offerText, WsOpcode.TEXT, false, fun _ => false⟩] =
      ⟨⟨true, [(hostLine, bytes "0"), (hostLine, bytes "0"), (relayLine, bytes "0")], true, []⟩,
        [(hostLine, bytes "0"), (relayLine, bytes "0")]⟩ := by
  refine ⟨rfl, ?_, rfl⟩
  intro h
  have he := (h rfl).2.1
  cases he

end Signalling

end Ryklys

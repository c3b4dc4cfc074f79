import Ryklys.Runs
import Ryklys.StreamerMedia
import Ryklys.Validation

/-!
# What becomes of a packet, and of FFmpeg

Every packet that is not taken for RTCP goes on, unchanged and in its order, to
the port of its track. FFmpeg is started once, for the payload type of the
first video packet and in front of it, and it is closed once.
-/

namespace Ryklys.StreamerMedia

open Runs

variable {c : MediaConfig} {s : StreamerMedia}

/-! ## Reading the log -/

/-- Where a message goes. -/
def forwarded : Bytes × RtcMessage → Option (UdpSocket × Bytes)
  | (trackType, .binary message) =>
    match payloadType message, socketOf trackType with
    | some _, some socket => some (socket, message)
    | _, _ => none
  | (_, .text _) => none

/-- The payload type of a video packet. -/
def videoType : Bytes × RtcMessage → Option UInt8
  | (trackType, .binary message) => if socketOf trackType = some .video then payloadType message else none
  | (_, .text _) => none

def isDatagram : MediaEvent → Bool
  | .sendto .. => true
  | _ => false

def datagramLog (log : List MediaEvent) : List MediaEvent := log.filter isDatagram

/-- The events of the process. -/
def processLog (log : List MediaEvent) : List MediaEvent := log.filter fun e => !isDatagram e

theorem datagramLog_append (a b : List MediaEvent) : datagramLog (a ++ b) = datagramLog a ++ datagramLog b :=
  List.filter_append ..

theorem processLog_append (a b : List MediaEvent) : processLog (a ++ b) = processLog a ++ processLog b :=
  List.filter_append ..

/-- No video packet is sent in front of `popen`. -/
def Preceded (c : MediaConfig) (log : List MediaEvent) : Prop :=
  ∀ pre post port data, log = pre ++ .sendto .video port data :: post → ∃ spawned, .popen c.ffmpegCmd spawned ∈ pre

theorem Preceded.append {log new : List MediaEvent} (h : Preceded c log)
    (hn : (∀ port data, MediaEvent.sendto .video port data ∉ new) ∨ ∃ spawned, .popen c.ffmpegCmd spawned ∈ log) :
    Preceded c (log ++ new) := by
  intro pre post port data he
  rcases List.append_eq_append_iff.mp he with ⟨as, rfl, hnew⟩ | ⟨bs, hlog, hbs⟩
  · rcases hn with hn | ⟨spawned, hs⟩
    · exact absurd (by rw [hnew]; simp) (hn port data)
    · exact ⟨spawned, List.mem_append_left _ hs⟩
  · cases bs with
    | nil =>
      rw [List.append_nil] at hlog
      rw [List.nil_append] at hbs
      rcases hn with hn | ⟨spawned, hs⟩
      · exact absurd (by rw [← hbs]; simp) (hn port data)
      · exact ⟨spawned, hlog ▸ hs⟩
    | cons b bs =>
      rw [List.cons_append, List.cons.injEq] at hbs
      rw [← hbs.1] at hlog
      exact h pre bs port data hlog

/-! ## The invariant -/

/-- The packet of a callback that has not sent it yet. -/
def pending : MessagePhase → List (UdpSocket × Bytes)
  | .idle => []
  | .starting _ message => [(.video, message)]
  | .sending socket message => [(socket, message)]

def packets (c : MediaConfig) (ps : List (UdpSocket × Bytes)) : List MediaEvent :=
  ps.flatMap fun p => c.sendUdpPacket p.1 p.2

theorem packets_append (c : MediaConfig) (a b : List (UdpSocket × Bytes)) :
    packets c (a ++ b) = packets c a ++ packets c b := List.flatMap_append

/-- What has become of FFmpeg. -/
inductive Ffmpeg where
  | unstarted
  | started (spawned : Bool) (pt : UInt8)
  | quitting (pt : UInt8)
  | reaped (pt : UInt8)

namespace Ffmpeg

def startup (c : MediaConfig) (spawned : Bool) (pt : UInt8) : List MediaEvent :=
  [.sdpFile c.sdpFilename (c.sdpContent pt), .popen c.ffmpegCmd spawned]

def events (c : MediaConfig) : Ffmpeg → List MediaEvent
  | .unstarted => []
  | .started spawned pt => startup c spawned pt
  | .quitting pt => startup c true pt ++ [.quit]
  | .reaped pt => startup c true pt ++ [.quit, .pclose]

def pt : Ffmpeg → Option UInt8
  | .unstarted => none
  | .started _ pt => some pt
  | .quitting pt => some pt
  | .reaped pt => some pt

/-- The pointer and the callback of the state agree with the process. -/
def Agrees (s : StreamerMedia) : Ffmpeg → Prop
  | .unstarted => s.ffmpegProcess = false ∧ s.state = .idle
  | .started spawned _ => s.ffmpegProcess = spawned ∧ s.state = .idle ∧ (spawned = true → s.destroyed = false)
  | .quitting _ => s.ffmpegProcess = true ∧ s.state = .closing ∧ s.destroyed = false
  | .reaped _ => (s.state = .closed ∧ s.destroyed = false) ∨
      (s.state = .idle ∧ (s.ffmpegProcess = false ∨ s.destroyed = true))

/-- FFmpeg is started for the first video packet. -/
def Started (videos : List UInt8) (f : Ffmpeg) : MessagePhase → Prop
  | .idle => f.pt = videos.head?
  | .starting pt _ => f = .unstarted ∧ videos = [pt]
  | .sending .video _ => f ≠ .unstarted ∧ f.pt = videos.head?
  | .sending .audio _ => f.pt = videos.head?

/-- The same process later. -/
theorem Started.later {f g : Ffmpeg} {videos : List UInt8} {m : MessagePhase} (h : f.Started videos m)
    (hf : f ≠ .unstarted) (hg : g ≠ .unstarted) (hp : g.pt = f.pt) : g.Started videos m := by
  cases m with
  | idle => exact hp.trans h
  | starting pt message => exact absurd h.1 hf
  | sending socket message =>
    cases socket with
    | video => exact And.intro hg (hp.trans h.2)
    | audio => exact hp.trans h

/-- The counter is 0 in front of the first video packet alone. -/
theorem Started.packet {f : Ffmpeg} {videos : List UInt8} {count : Int} (h : f.Started videos .idle)
    (hcount : count = videos.length) (pt : UInt8) (message : Bytes) :
    f.Started (videos ++ [pt]) (if count = 0 then .starting pt message else .sending .video message) := by
  cases videos with
  | nil =>
    rw [if_pos (by rw [hcount]; rfl)]
    cases f with
    | unstarted => exact And.intro rfl rfl
    | _ => cases h
  | cons first videos =>
    rw [if_neg (by rw [hcount, List.length_cons]; omega)]
    refine And.intro (fun hf => ?_) h
    rw [hf] at h
    cases h

end Ffmpeg

def videos (s : StreamerMedia) : List UInt8 := s.received.filterMap videoType

structure Inv (c : MediaConfig) (s : StreamerMedia) (f : Ffmpeg) : Prop where
  process : processLog s.log = f.events c
  agrees : f.Agrees s
  started : f.Started s.videos s.message
  count : s.videoPacketCounter = s.videos.length
  datagrams : datagramLog s.log ++ packets c (pending s.message) = packets c (s.received.filterMap forwarded)
  order : Preceded c s.log
  idle : s.destroyed = true → s.message = .idle

theorem inv_start (c : MediaConfig) : Inv c {} .unstarted :=
  ⟨rfl, And.intro rfl rfl, rfl, rfl, rfl, fun pre _ _ _ h => absurd h (by simp), fun _ => rfl⟩

/-- A started process has its `popen` in the log. -/
theorem Inv.popen_mem {f : Ffmpeg} (h : Inv c s f) (hf : f ≠ .unstarted) :
    ∃ spawned, .popen c.ffmpegCmd spawned ∈ s.log := by
  have hmem : ∀ e ∈ f.events c, e ∈ s.log := by
    rw [← h.process]
    exact fun e he => List.mem_of_mem_filter he
  cases f with
  | unstarted => exact absurd rfl hf
  | started spawned pt => exact ⟨spawned, hmem _ (by simp [Ffmpeg.events, Ffmpeg.startup])⟩
  | quitting pt => exact ⟨true, hmem _ (by simp [Ffmpeg.events, Ffmpeg.startup])⟩
  | reaped pt => exact ⟨true, hmem _ (by simp [Ffmpeg.events, Ffmpeg.startup])⟩

/-! ## The callback of a message -/

theorem Inv.popen {f : Ffmpeg} (h : Inv c s f) (spawned : Bool) : ∃ f, Inv c (s.popen c spawned) f := by
  unfold StreamerMedia.popen
  cases hm : s.message with
  | idle => exact ⟨f, h⟩
  | sending socket message => exact ⟨f, h⟩
  | starting pt message =>
    have hs := h.started
    have hd := h.datagrams
    rw [hm] at hs hd
    obtain ⟨rfl, hpt⟩ := hs
    obtain ⟨-, hst⟩ := h.agrees
    have hlive : s.destroyed = false := by
      rw [← Bool.not_eq_true]
      intro hdes
      have := h.idle hdes
      rw [hm] at this
      cases this
    refine ⟨.started spawned pt, ?_, And.intro rfl (And.intro hst fun _ => hlive),
      And.intro (fun hf => by cases hf) (by rw [videos] at hpt ⊢; rw [hpt]; rfl), h.count, ?_, h.order.append (.inl ?_),
      fun hdes => absurd hdes (by rw [hlive]; decide)⟩
    · dsimp only
      rw [processLog_append, h.process]
      rfl
    · dsimp only
      rw [datagramLog_append, ← hd]
      exact congrArg (· ++ _) (List.append_nil _)
    · intro port data hmem
      simp at hmem

theorem Inv.send {f : Ffmpeg} (h : Inv c s f) : Inv c (s.send c) f := by
  unfold StreamerMedia.send
  cases hm : s.message with
  | idle => exact h
  | starting pt message => exact h
  | sending socket message =>
    have hs := h.started
    have hd := h.datagrams
    rw [hm] at hs hd
    have hsent : datagramLog (c.sendUdpPacket socket message) = c.sendUdpPacket socket message := by
      unfold MediaConfig.sendUdpPacket
      split <;> rfl
    have hprocess : processLog (c.sendUdpPacket socket message) = [] := by
      unfold MediaConfig.sendUdpPacket
      split <;> rfl
    refine ⟨?_, h.agrees, ?_, h.count, ?_, h.order.append ?_, fun _ => rfl⟩
    · dsimp only
      rw [processLog_append, hprocess, List.append_nil, h.process]
    · cases socket with
      | video => exact hs.2
      | audio => exact hs
    · dsimp only
      rw [datagramLog_append, hsent, ← hd]
      simp [packets, pending]
    · cases socket with
      | video => exact .inr (h.popen_mem hs.1)
      | audio =>
        refine .inl fun port data hmem => ?_
        unfold MediaConfig.sendUdpPacket at hmem
        split at hmem <;> simp at hmem

theorem nextCount_lt {n : Nat} (h : n < 2 ^ 31 - 1) : nextCount n = (n + 1 : Nat) := by
  unfold nextCount
  rw [if_neg (by omega)]
  rfl

theorem Inv.packet {f : Ffmpeg} {s' : StreamerMedia} (h : Inv c s f) (hl : s'.log = s.log)
    (hp : s'.ffmpegProcess = s.ffmpegProcess) (hst : s'.state = s.state) (hdes : s'.destroyed = s.destroyed)
    (hstarted : f.Started s'.videos s'.message) (hcount : s'.videoPacketCounter = s'.videos.length)
    (hd : datagramLog s.log ++ packets c (pending s'.message) = packets c (s'.received.filterMap forwarded))
    (hidle : s.destroyed = false) : Inv c s' f := by
  refine ⟨by rw [hl]; exact h.process, ?_, hstarted, hcount, by rw [hl]; exact hd, by rw [hl]; exact h.order,
    fun hd' => absurd hd' (by rw [hdes, hidle]; decide)⟩
  have ha := h.agrees
  cases f with
  | unstarted => exact And.intro (hp.trans ha.1) (hst.trans ha.2)
  | started spawned pt => exact And.intro (hp.trans ha.1) (And.intro (hst.trans ha.2.1) fun _ => hdes.trans hidle)
  | quitting pt => exact And.intro (hp.trans ha.1) (And.intro (hst.trans ha.2.1) (hdes.trans hidle))
  | reaped pt =>
    unfold Ffmpeg.Agrees at ha ⊢
    rwa [hp, hst, hdes]

theorem Inv.message {f : Ffmpeg} (h : Inv c s f) (hm : s.message = .idle) (hlive : s.destroyed = false)
    (hn : s.received.length < 2 ^ 31 - 1) (trackType : Bytes) (data : RtcMessage) :
    Inv c ((s.receive trackType data).onMessage trackType data) f := by
  have hs := h.started
  have hd := h.datagrams
  rw [hm] at hs hd
  have hlen : s.videos.length ≤ s.received.length := List.length_filterMap_le _ _
  -- a message that is not forwarded
  have hskip : forwarded (trackType, data) = none → videoType (trackType, data) = none →
      Inv c (s.receive trackType data) f := by
    intro hf hv
    have hvideos : (s.receive trackType data).videos = s.videos := by
      simp [videos, receive, List.filterMap_append, hv]
    refine h.packet rfl rfl rfl rfl ?_ ?_ ?_ hlive
    · rw [hvideos, show (s.receive trackType data).message = .idle from hm]
      exact hs
    · rw [hvideos]
      exact h.count
    · simp only [receive, List.filterMap_append, List.filterMap_cons, hf, List.filterMap_nil, List.append_nil, hm]
      exact hd
  cases data with
  | text data => exact hskip rfl rfl
  | binary message =>
    rw [receive, onMessage, onPacket]
    cases hpt : payloadType message with
    | none => exact hskip (by rw [forwarded, hpt]) (by rw [videoType, hpt, ite_self])
    | some pt =>
      cases hsocket : socketOf trackType with
      | none => exact hskip (by rw [forwarded, hpt, hsocket]) (by rw [videoType, hsocket]; rfl)
      | some socket =>
        have hnext : datagramLog s.log ++ packets c [(socket, message)] =
            packets c ((s.received ++ [(trackType, RtcMessage.binary message)]).filterMap forwarded) := by
          rw [List.filterMap_append, packets_append, ← hd]
          simp [packets, pending, forwarded, hpt, hsocket]
        cases socket with
        | audio =>
          have hvideos : (s.received ++ [(trackType, RtcMessage.binary message)]).filterMap videoType = s.videos := by
            simp [videos, videoType, hsocket]
          exact h.packet rfl rfl rfl rfl (by rw [videos, hvideos]; exact hs) (by rw [videos, hvideos]; exact h.count)
            hnext hlive
        | video =>
          have hvideos : (s.received ++ [(trackType, RtcMessage.binary message)]).filterMap videoType =
              s.videos ++ [pt] := by
            simp [videos, videoType, hsocket, hpt]
          refine h.packet rfl rfl rfl rfl ?_ ?_ ?_ hlive
          · rw [videos, hvideos]
            exact hs.packet h.count pt message
          · rw [videos, hvideos, List.length_append]
            exact (congrArg nextCount h.count).trans (nextCount_lt (Nat.lt_of_le_of_lt hlen hn))
          · dsimp only
            split <;> exact hnext

/-! ## The callback of a state, and the destructor -/

/-- A step that only goes on with the process. -/
theorem Inv.go {f g : Ffmpeg} {s' : StreamerMedia} (h : Inv c s f) (new : List MediaEvent)
    (hs : s' =
      { s with
        log := s.log ++ new
        ffmpegProcess := s'.ffmpegProcess
        state := s'.state
        destroyed := s'.destroyed })
    (hnew : ∀ e ∈ new, isDatagram e = false) (hg : f.events c ++ new = g.events c) (ha : g.Agrees s')
    (hpt : g = f ∨ f ≠ .unstarted ∧ g ≠ .unstarted ∧ g.pt = f.pt)
    (hidle : s.message = .idle ∨ s'.destroyed = s.destroyed) : Inv c s' g := by
  have hprocess : processLog new = new := List.filter_eq_self.mpr fun e he => by rw [hnew e he]; rfl
  have hdatagram : datagramLog new = [] := List.filter_eq_nil_iff.mpr fun e he => by rw [hnew e he]; decide
  rw [hs]
  refine ⟨?_, by rwa [← hs], ?_, h.count, ?_, h.order.append (.inl ?_), ?_⟩
  · dsimp only
    rw [processLog_append, hprocess, h.process, hg]
  · rcases hpt with rfl | ⟨hf, hne, hpt⟩
    · exact h.started
    · exact h.started.later hf hne hpt
  · dsimp only
    rw [datagramLog_append, hdatagram, List.append_nil]
    exact h.datagrams
  · intro port data hmem
    exact absurd (hnew _ hmem) (by simp [isDatagram])
  · rcases hidle with hidle | hidle
    · exact fun _ => hidle
    · exact fun hd => h.idle (hidle.symm.trans hd)

theorem ne_unstarted {f : Ffmpeg} {pt : UInt8} (h : f.pt = some pt) : f ≠ .unstarted := fun hf => by
  rw [hf] at h
  cases h

theorem Inv.stateChange {f : Ffmpeg} (h : Inv c s f) (hst : s.state = .idle) (hlive : s.destroyed = false)
    (state : PeerConnectionState) : ∃ f, Inv c (s.onStateChange state) f := by
  unfold onStateChange
  by_cases hl : lost state ∧ s.ffmpegProcess
  · rw [if_pos hl]
    have ha := h.agrees
    cases f with
    | unstarted => exact absurd hl.2 (by rw [ha.1]; decide)
    | quitting pt => exact absurd (hst.symm.trans ha.2.1) (by decide)
    | reaped pt =>
      rcases ha with ⟨hc, -⟩ | ⟨-, hp | hd⟩
      · exact absurd (hst.symm.trans hc) (by decide)
      · exact absurd hl.2 (by rw [hp]; decide)
      · exact absurd (hlive.symm.trans hd) (by decide)
    | started spawned pt =>
      obtain rfl : spawned = true := ha.1.symm.trans hl.2
      exact ⟨.quitting pt, h.go [.quit] rfl (by simp [isDatagram]) rfl (And.intro hl.2 (And.intro rfl hlive))
        (.inr ⟨ne_unstarted rfl, ne_unstarted rfl, rfl⟩) (.inr rfl)⟩
  · rw [if_neg hl]
    exact ⟨f, h⟩

theorem Inv.pclose {f : Ffmpeg} (h : Inv c s f) (hst : s.state = .closing) :
    ∃ f, Inv c { s with log := s.log ++ [.pclose], state := .closed } f := by
  have ha := h.agrees
  cases f with
  | unstarted => exact absurd (hst.symm.trans ha.2) (by decide)
  | started spawned pt => exact absurd (hst.symm.trans ha.2.1) (by decide)
  | reaped pt =>
    rcases ha with ⟨hc, -⟩ | ⟨hc, -⟩
    · exact absurd (hst.symm.trans hc) (by decide)
    · exact absurd (hst.symm.trans hc) (by decide)
  | quitting pt =>
    exact ⟨.reaped pt, h.go [.pclose] rfl (by simp [isDatagram]) rfl (.inl ⟨rfl, ha.2.2⟩)
      (.inr ⟨ne_unstarted rfl, ne_unstarted rfl, rfl⟩) (.inr rfl)⟩

theorem Inv.clear {f : Ffmpeg} (h : Inv c s f) (hst : s.state = .closed) :
    Inv c { s with ffmpegProcess := false, state := .idle } f := by
  have ha := h.agrees
  have hlog : s.log = s.log ++ [] := (List.append_nil _).symm
  cases f with
  | unstarted => exact absurd (hst.symm.trans ha.2) (by decide)
  | started spawned pt => exact absurd (hst.symm.trans ha.2.1) (by decide)
  | quitting pt => exact absurd (hst.symm.trans ha.2.1) (by decide)
  | reaped pt =>
    exact h.go [] (by rw [← hlog]) (by simp) (List.append_nil _) (.inr ⟨rfl, .inl rfl⟩) (.inl rfl) (.inr rfl)

theorem Inv.destroy {f : Ffmpeg} (h : Inv c s f) (hm : s.message = .idle) (hst : s.state = .idle)
    (hlive : s.destroyed = false) : ∃ f, Inv c s.destroy f := by
  have ha := h.agrees
  have hlog : s.log = s.log ++ [] := (List.append_nil _).symm
  unfold StreamerMedia.destroy
  by_cases hp : s.ffmpegProcess = true
  · rw [if_pos hp]
    cases f with
    | unstarted => exact absurd (hp.symm.trans ha.1) (by decide)
    | quitting pt => exact absurd (hst.symm.trans ha.2.1) (by decide)
    | reaped pt =>
      rcases ha with ⟨hc, -⟩ | ⟨-, hf | hd⟩
      · exact absurd (hst.symm.trans hc) (by decide)
      · exact absurd (hp.symm.trans hf) (by decide)
      · exact absurd (hlive.symm.trans hd) (by decide)
    | started spawned pt =>
      obtain rfl : spawned = true := ha.1.symm.trans hp
      exact ⟨.reaped pt, h.go [.quit, .pclose] rfl (by simp [isDatagram]) rfl (.inr ⟨hst, .inr rfl⟩)
        (.inr ⟨ne_unstarted rfl, ne_unstarted rfl, rfl⟩) (.inl hm)⟩
  · rw [if_neg hp]
    rw [Bool.not_eq_true] at hp
    refine ⟨f, h.go [] (by rw [← hlog]) (by simp) (List.append_nil _) ?_ (.inl rfl) (.inl hm)⟩
    cases f with
    | unstarted => exact ha
    | started spawned pt =>
      exact And.intro ha.1 (And.intro hst fun hs => absurd (ha.1.symm.trans hp) (by rw [hs]; decide))
    | quitting pt => exact absurd (hst.symm.trans ha.2.1) (by decide)
    | reaped pt => exact .inr ⟨hst, .inl hp⟩

/-! ## Runs -/

/-- The counter of video packets does not overflow. -/
def Counted (s : StreamerMedia) : MediaOp → Prop
  | .message _ _ => s.received.length < 2 ^ 31 - 1
  | _ => True

instance (s : StreamerMedia) : (o : MediaOp) → Decidable (Counted s o)
  | .message _ _ => inferInstanceAs (Decidable (_ < _))
  | .track _ => isTrue trivial
  | .popen _ => isTrue trivial
  | .send => isTrue trivial
  | .stateChange _ => isTrue trivial
  | .pclose => isTrue trivial
  | .clear => isTrue trivial
  | .destroy => isTrue trivial

theorem inv_step (s : StreamerMedia) (o : MediaOp) (h : ∃ f, Inv c s f) (ho : Counted s o) :
    ∃ f, Inv c (s.step c o) f := by
  obtain ⟨f, h⟩ := h
  cases o with
  | track trackType =>
    rw [step]
    split
    · exact ⟨f, h⟩
    · exact ⟨f, h.process, h.agrees, h.started, h.count, h.datagrams, h.order, h.idle⟩
  | message track data =>
    rw [step]
    cases s.incomingTracks[track]? with
    | none => exact ⟨f, h⟩
    | some trackType =>
      exact or_stay (P := fun s => ∃ f, Inv c s f) ⟨f, h⟩ fun hp =>
        ⟨f, h.message hp.1 (by simpa using hp.2) ho trackType data⟩
  | popen spawned => exact h.popen spawned
  | send => exact ⟨f, h.send⟩
  | stateChange state =>
    exact or_stay (P := fun s => ∃ f, Inv c s f) ⟨f, h⟩ fun hp => h.stateChange hp.1 (by simpa using hp.2) state
  | pclose => exact or_stay (P := fun s => ∃ f, Inv c s f) ⟨f, h⟩ h.pclose
  | clear => exact or_stay (P := fun s => ∃ f, Inv c s f) ⟨f, h⟩ fun hp => ⟨f, h.clear hp⟩
  | destroy =>
    exact or_stay (P := fun s => ∃ f, Inv c s f) ⟨f, h⟩ fun hp => h.destroy hp.1 hp.2.1 (by simpa using hp.2.2)

theorem Ffmpeg.Started.head {f : Ffmpeg} {videos : List UInt8} {m : MessagePhase} (h : f.Started videos m)
    {pt : UInt8} (hf : f.pt = some pt) : videos.head? = some pt := by
  cases m with
  | idle => exact h.symm.trans hf
  | starting pt message => exact absurd h.1 (ne_unstarted hf)
  | sending socket message =>
    cases socket with
    | video => exact h.2.symm.trans hf
    | audio => exact h.symm.trans hf

/-- What is true of a session at any time. -/
structure Sound (c : MediaConfig) (s : StreamerMedia) : Prop where
  -- of the packets in their order, what was sent and the one that is being sent
  forwarded : datagramLog s.log ++ packets c (pending s.message) = packets c (s.received.filterMap forwarded)
  order : Preceded c s.log
  -- FFmpeg is started once, for the first video packet, and closed once
  process : processLog s.log = [] ∨ ∃ pt, s.videos.head? = some pt ∧
    (processLog s.log = Ffmpeg.startup c false pt ∨ processLog s.log <+: Ffmpeg.startup c true pt ++ [.quit, .pclose])
  started : s.message = .idle → processLog s.log = [] → s.videos = []
  -- the destructor leaves no process
  closed : s.destroyed = true → processLog s.log = [] ∨ ∃ pt,
    processLog s.log = Ffmpeg.startup c false pt ∨ processLog s.log = Ffmpeg.startup c true pt ++ [.quit, .pclose]

theorem Inv.sound {f : Ffmpeg} (h : Inv c s f) : Sound c s := by
  have ha := h.agrees
  have hp := h.process
  refine ⟨h.datagrams, h.order, ?_, ?_, ?_⟩
  · cases f with
    | unstarted => exact .inl hp
    | started spawned pt =>
      refine .inr ⟨pt, h.started.head rfl, ?_⟩
      cases spawned with
      | false => exact .inl hp
      | true => exact .inr (by rw [hp]; exact List.prefix_append _ _)
    | quitting pt =>
      refine .inr ⟨pt, h.started.head rfl, .inr ⟨[.pclose], ?_⟩⟩
      rw [hp]
      rfl
    | reaped pt => exact .inr ⟨pt, h.started.head rfl, .inr (by rw [hp]; exact List.prefix_refl _)⟩
  · intro hm hnil
    have hs := h.started
    rw [hm] at hs
    cases f with
    | unstarted => exact List.head?_eq_none_iff.mp hs.symm
    | started spawned pt => rw [hp] at hnil; cases hnil
    | quitting pt => rw [hp] at hnil; cases hnil
    | reaped pt => rw [hp] at hnil; cases hnil
  · intro hd
    cases f with
    | unstarted => exact .inl hp
    | started spawned pt =>
      cases spawned with
      | false => exact .inr ⟨pt, .inl hp⟩
      | true => exact absurd (hd.symm.trans (ha.2.2 rfl)) (by decide)
    | quitting pt => exact absurd (hd.symm.trans ha.2.2) (by decide)
    | reaped pt => exact .inr ⟨pt, .inr hp⟩

theorem sound_run (c : MediaConfig) {ops : List MediaOp} (ho : EachStep (step c) Counted {} ops) :
    Sound c (run (step c) {} ops) := by
  obtain ⟨f, h⟩ := (always_of_inv (step c) inv_step ⟨_, inv_start c⟩ (fun _ h => h) ho).last
  exact h.sound

theorem Sound.process_mem (h : Sound c s) {e : MediaEvent} (he : e ∈ s.log) (hd : isDatagram e = false) :
    ∃ spawned pt, e ∈ Ffmpeg.startup c spawned pt ++ [.quit, .pclose] := by
  have hin : e ∈ processLog s.log := List.mem_filter.mpr ⟨he, by rw [hd]; rfl⟩
  rcases h.process with hp | ⟨pt, -, hp | hp⟩
  · rw [hp] at hin
    cases hin
  · rw [hp] at hin
    exact ⟨false, pt, List.mem_append_left _ hin⟩
  · exact ⟨true, pt, hp.subset hin⟩

/-- **The media of a session**, in any order of the steps of its callbacks. -/
theorem media_sound (c : MediaConfig) {ops : List MediaOp} (ho : EachStep (step c) Counted {} ops) :
    Sound c (run (step c) {} ops) := sound_run c ho

def bobMedia : MediaConfig where
  streamId := bytes "bob"
  socketFd _ := 5
  udpPort
    | .video => 5004
    | .audio => 5006

def bobOps : List MediaOp :=
  [.track (bytes "video"), .track (bytes "audio"), .message 1 (.binary [128, 111]), .send,
    .message 0 (.binary [128, 96, 1]), .popen true, .send, .message 0 (.binary [128, 200]), .stateChange .Closed,
    .pclose, .clear, .destroy]

theorem media_sound_bob : Sound bobMedia (run (step bobMedia) {} bobOps) ∧
    (run (step bobMedia) {} bobOps).log =
      [.sendto .audio 5006 [128, 111], .sdpFile bobMedia.sdpFilename (bobMedia.sdpContent 96),
        .popen bobMedia.ffmpegCmd true, .sendto .video 5004 [128, 96, 1], .quit, .pclose] :=
  ⟨media_sound bobMedia (by decide), by rfl⟩

/-! ## RTP and RTCP -/

theorem toNat_low (b : UInt8) : (b &&& 0x7F).toNat = b.toNat % 128 := by
  rw [UInt8.toNat_and]
  exact Nat.and_two_pow_sub_one_eq_mod b.toNat 7

/-- The payload types of RTP that RTCP leaves free. -/
theorem payloadType_rtp {b0 b1 : UInt8} (rest : Bytes) (h : b1 &&& 0x7F < 72 ∨ 78 < b1 &&& 0x7F) :
    payloadType (b0 :: b1 :: rest) = some (b1 &&& 0x7F) := by
  have hlow := toNat_low b1
  have hlt := b1.toNat_lt
  simp only [UInt8.lt_iff_toNat_lt, hlow, UInt8.reduceToNat] at h
  rw [payloadType, if_neg, if_neg]
  · simp only [Bool.and_eq_true, decide_eq_true_eq, UInt8.le_iff_toNat_le, hlow, UInt8.reduceToNat]
    omega
  · simp only [Bool.and_eq_true, decide_eq_true_eq, UInt8.le_iff_toNat_le, UInt8.reduceToNat]
    omega

theorem payloadType_some {message : Bytes} {pt : UInt8} (h : payloadType message = some pt) :
    ∃ b0 b1 rest, message = b0 :: b1 :: rest ∧ ¬ (200 ≤ b1 ∧ b1 ≤ 206) := by
  unfold payloadType at h
  split at h
  · split at h
    · cases h
    · rename_i b0 b1 rest hb
      refine ⟨b0, b1, rest, rfl, ?_⟩
      rwa [Bool.and_eq_true, decide_eq_true_eq, decide_eq_true_eq] at hb
  · cases h

theorem mem_packets {ps : List (UdpSocket × Bytes)} {socket : UdpSocket} {port : Nat} {data : Bytes} :
    .sendto socket port data ∈ packets c ps ↔
      (socket, data) ∈ ps ∧ 0 ≤ c.socketFd socket ∧ port = (c.udpPort socket % 2 ^ 16).toNat := by
  rw [packets, List.mem_flatMap]
  constructor
  · rintro ⟨⟨socket', data'⟩, hp, he⟩
    unfold MediaConfig.sendUdpPacket at he
    split at he
    · cases he
    · rename_i hfd
      rw [List.mem_singleton] at he
      cases he
      exact ⟨hp, by simpa using hfd, rfl⟩
  · rintro ⟨hp, hfd, rfl⟩
    refine ⟨_, hp, ?_⟩
    rw [MediaConfig.sendUdpPacket, if_neg (by simpa using hfd)]
    exact List.mem_singleton_self _

theorem mem_datagramLog {log : List MediaEvent} {socket : UdpSocket} {port : Nat} {data : Bytes} :
    .sendto socket port data ∈ datagramLog log ↔ .sendto socket port data ∈ log := by
  rw [datagramLog, List.mem_filter]
  exact and_iff_left rfl

/-- **RTP goes on, RTCP does not.** Every RTP packet of a track, of a payload
type that RTCP leaves free, reaches the port of its track; no packet with the
type of an RTCP packet is ever sent. -/
theorem rtp_relayed (c : MediaConfig) {ops : List MediaOp} (ho : EachStep (step c) Counted {} ops) :
    ((run (step c) {} ops).message = .idle → ∀ trackType socket b0 b1 rest,
      (trackType, .binary (b0 :: b1 :: rest)) ∈ (run (step c) {} ops).received → socketOf trackType = some socket →
      0 ≤ c.socketFd socket → (b1 &&& 0x7F < 72 ∨ 78 < b1 &&& 0x7F) →
      .sendto socket (c.udpPort socket % 2 ^ 16).toNat (b0 :: b1 :: rest) ∈ (run (step c) {} ops).log) ∧
    ∀ socket port data, .sendto socket port data ∈ (run (step c) {} ops).log →
      ∃ b0 b1 rest, data = b0 :: b1 :: rest ∧ ¬ (200 ≤ b1 ∧ b1 ≤ 206) := by
  have hsound := sound_run c ho
  constructor
  · intro hidle trackType socket b0 b1 rest hmem hsocket hfd hpt
    have hall := hsound.forwarded
    rw [hidle, pending, packets, List.flatMap_nil, List.append_nil] at hall
    rw [← mem_datagramLog, hall, mem_packets]
    refine ⟨List.mem_filterMap.mpr ⟨_, hmem, ?_⟩, hfd, rfl⟩
    rw [forwarded, payloadType_rtp rest hpt, hsocket]
  · intro socket port data hmem
    have hin : .sendto socket port data ∈ packets c ((run (step c) {} ops).received.filterMap forwarded) := by
      rw [← hsound.forwarded]
      exact List.mem_append_left _ (mem_datagramLog.mpr hmem)
    obtain ⟨⟨trackType, message⟩, -, hf⟩ := List.mem_filterMap.mp (mem_packets.mp hin).1
    cases message with
    | text data => cases hf
    | binary message =>
      unfold forwarded at hf
      cases hpt : payloadType message with
      | none => simp [hpt] at hf
      | some pt =>
        cases hs : socketOf trackType with
        | none => simp [hpt, hs] at hf
        | some socket' =>
          simp only [hpt, hs, Option.some.injEq, Prod.mk.injEq] at hf
          obtain ⟨-, rfl⟩ := hf
          exact payloadType_some hpt

theorem rtp_relayed_bob :
    MediaEvent.sendto .video 5004 [128, 96, 1] ∈ (run (step bobMedia) {} bobOps).log :=
  (rtp_relayed bobMedia (show EachStep _ Counted {} bobOps by decide)).1 (by decide) (bytes "video") .video 128 96 [1]
    (by decide) (by decide) (by decide) (by decide)

end Ryklys.StreamerMedia

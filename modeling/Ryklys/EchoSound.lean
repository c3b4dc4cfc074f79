import Ryklys.ControlSound
import Ryklys.CookieAuth
import Ryklys.ExchangeSound

/-!
# Whole sessions

What the client of a WebSocket route decodes, however its frames and the
server's are cut on the way and whenever the setup runs: on an echo route the
answers to its frames (`echo_conversation`), without a token on any other path
one CLOSE with 1008 and PONGs (`refused_conversation`).
-/

namespace Ryklys

open Runs SelfDelimiting

/-! ## Runs of a session -/

def WsSessionOp.chunk : WsSessionOp → Bytes
  | .setup => []
  | .readable d => d.chunks.flatten
  | .writable _ => []

/-- No end of the stream, and no error of the socket. -/
def WsSessionOp.Undisturbed : WsSessionOp → Prop
  | .setup => True
  | .readable d => d.stop = .eagain
  | .writable results => .error ∉ results

namespace WsSession

def received (ops : List WsSessionOp) : Bytes := ops.flatMap WsSessionOp.chunk

/-- The frames of the client that the server has whole. -/
def arrived (frames : List ClientFrame) (ops : List WsSessionOp) : List WebSocketFrame :=
  (frames.take (frameCodec.completed frames (received ops).length)).map ClientFrame.frame

theorem received_append (a b : List WsSessionOp) : received (a ++ b) = received a ++ received b :=
  List.flatMap_append

theorem onWritable_quiet {results : List SendResult} (h : .error ∉ results) : ∀ c : WebSocketConnection,
    (c.onWritable results).queued = c.queued ∧ (c.onWritable results).state = c.state ∧
      (c.onWritable results).onMessage = c.onMessage ∧ (c.onWritable results).onClose = c.onClose := by
  induction results with
  | nil =>
    intro c
    unfold WebSocketConnection.onWritable
    split <;> exact ⟨rfl, rfl, rfl, rfl⟩
  | cons result results ih =>
    intro c
    unfold WebSocketConnection.onWritable
    split
    · exact ⟨rfl, rfl, rfl, rfl⟩
    · rename_i data queue _
      cases result with
      | error => exact absurd List.mem_cons_self h
      | eagain => exact ⟨rfl, rfl, rfl, rfl⟩
      | accepted n =>
        obtain ⟨h1, h2, h3, h4⟩ := ih (fun he => h (List.mem_cons_of_mem _ he)) (c.accept data queue n)
        have haccept : (c.accept data queue n).queued = c.queued ∧ (c.accept data queue n).state = c.state := by
          unfold WebSocketConnection.accept
          dsimp only
          split <;> exact ⟨rfl, rfl⟩
        have hs := SendsOnly.accept c data queue n
        exact ⟨h1.trans haccept.1, h2.trans haccept.2, h3.trans hs.onMessage, h4.trans hs.onClose⟩

/-- `t` is `s` after the frames were dispatched and answered. -/
structure Answered (s : WsSession) (fs : List WebSocketFrame) (t : WsSession) : Prop where
  dispatched : t.conn.dispatched = s.conn.dispatched ++ fs
  putsOut : PutsOut s.installed.answer s.conn fs t.conn
  installed : t.installed = s.installed
  isSetUp : t.isSetUp = s.isSetUp
  on : s.installed.On t.conn

section
variable {s t u : WsSession} {a b : List WebSocketFrame}

theorem Answered.refl (h : s.installed.On s.conn) : Answered s [] s := by
  refine ⟨?_, .refl rfl rfl, rfl, rfl, h⟩
  rw [List.append_nil]

theorem Answered.trans (h : Answered s a t) (h' : Answered t b u) : Answered s (a ++ b) u := by
  have hp := h'.putsOut
  have ho := h'.on
  rw [h.installed] at hp ho
  refine ⟨?_, h.putsOut.trans hp, h'.installed.trans h.installed, h'.isSetUp.trans h.isSetUp, ho⟩
  rw [h'.dispatched, h.dispatched, List.append_assoc]

variable (setup : WsSetup) {o : WsSessionOp}

theorem answered_read (hon : s.installed.On s.conn) {d : Drain} (hd : d.stop = .eagain) :
    Answered s (bufferedFrames (drain s.conn.readBuffer d.chunks)) (s.read d) := by
  rw [read, WebSocketConnection.onReadable, hd]
  generalize hbuf : drain s.conn.readBuffer d.chunks = buf
  have hon' : s.installed.On { s.conn with readBuffer := buf } := ⟨hon.onMessage, hon.onClose⟩
  have hloop := frameLoop_spec buf.length { s.conn with readBuffer := buf } (s.installed.reactions (bufferedFrames buf))
  have hemits := frameLoop_emits buf.length hon'
  rw [attended_returns _ _ _ (WsSetup.returns_reactions _)] at hloop
  refine ⟨hloop.dispatched, ⟨hemits.1, hemits.2⟩, rfl, rfl, ?_⟩
  exact hon'.congr hloop.onMessage hloop.onClose

theorem answered_step (hon : s.installed.On s.conn) (hu : o.Undisturbed) (hsetup : s.isSetUp = true ∨ o ≠ .setup) :
    ∃ fs, Answered s fs (s.step setup o) := by
  cases o with
  | setup =>
    refine ⟨[], ?_⟩
    rw [step, if_pos (hsetup.resolve_right (not_not.mpr rfl))]
    exact .refl hon
  | readable d => exact ⟨_, answered_read hon hu⟩
  | writable results =>
    obtain ⟨hq, hst, hm, hc⟩ := onWritable_quiet hu s.conn
    refine ⟨[], ?_, .refl hq ?_, rfl, rfl, hon.congr hm hc⟩
    · rw [List.append_nil]
      exact (onWritable_reads results s.conn).1
    · rw [step, WebSocketConnection.isOpen, hst, WebSocketConnection.isOpen]

/-- **Runs.** What is dispatched is answered, by what is installed. -/
theorem answered_run : ∀ (ops : List WsSessionOp) {s : WsSession}, s.installed.On s.conn →
    (∀ o ∈ ops, o.Undisturbed) → (s.isSetUp = true ∨ .setup ∉ ops) → ∃ fs, Answered s fs (run (step setup) s ops)
  | [], _, hon, _, _ => ⟨[], .refl hon⟩
  | o :: ops, s, hon, hu, hsetup => by
    obtain ⟨fs, h⟩ := answered_step setup hon (hu o List.mem_cons_self)
      (hsetup.imp_right fun hn he => hn (he ▸ List.mem_cons_self))
    have hon' : (s.step setup o).installed.On (s.step setup o).conn := by
      rw [h.installed]
      exact h.on
    obtain ⟨fs', h'⟩ := answered_run ops hon' (fun o ho => hu o (List.mem_cons_of_mem _ ho)) (by
      rw [h.isSetUp]
      exact hsetup.imp_right fun hn ho => hn (List.mem_cons_of_mem _ ho))
    exact ⟨fs ++ fs', h.trans h'⟩

end

theorem install_sendsOnly (setup : WsSetup) (c : WebSocketConnection) :
    (setup.install c).dispatched = c.dispatched ∧ (setup.install c).readBuffer = c.readBuffer :=
  have h := SendsOnly.calls setup.calls c
  ⟨h.dispatched, h.readBuffer⟩

/-- The reader of a session finds the frames of its client. -/
theorem session_reads (setup : WsSetup) {frames : List ClientFrame} {ops : List WsSessionOp}
    (hu : ∀ o ∈ ops, o.Undisturbed) (hs : received ops <+: frameCodec.stream frames) :
    Reads {} (run (step setup) {} ops).conn
      (frameCodec.after frames (frameCodec.completed frames (received ops).length) (received ops)) := by
  induction ops using List.reverseRecOn with
  | nil =>
    rw [show received [] = [] from rfl, List.length_nil, Codec.after_start]
    exact ⟨rfl, rfl⟩
  | append_singleton ops o ih =>
    have happ : received (ops ++ [o]) = received ops ++ o.chunk := by simp [received]
    rw [happ] at hs ⊢
    have h := ih (fun o ho => hu o (List.mem_append_left _ ho)) ((List.prefix_append _ _).trans hs)
    have ho := hu o (List.mem_append_right _ (List.mem_singleton_self o))
    rw [run_snoc]
    cases o with
    | setup =>
      rw [WsSessionOp.chunk, List.append_nil, step]
      split
      · exact h
      · obtain ⟨hd, hb⟩ := install_sendsOnly setup (run (step setup) {} ops).conn
        exact ⟨hd.trans h.1, hb.trans h.2⟩
    | readable d =>
      rw [WsSessionOp.chunk] at hs ⊢
      rw [← frameCodec.feed_complete hs]
      exact readable_reads h ho (WsSetup.returns_reactions _)
    | writable results =>
      rw [WsSessionOp.chunk, List.append_nil]
      obtain ⟨hd, hb⟩ := onWritable_reads results (run (step setup) {} ops).conn
      exact ⟨hd.trans h.1, hb.trans h.2⟩

theorem session_output (setup : WsSetup) (ops : List WsSessionOp) :
    (run (step setup) {} ops).conn.OutputInv := by
  refine invariant (step setup) (J := fun s => s.conn.OutputInv) (fun s o h => ?_) ops
    WebSocketConnection.outputInv_init
  cases o with
  | setup =>
    rw [step]
    split
    · exact h
    · exact (h.calls setup.calls).congr rfl rfl rfl rfl
  | readable d => exact h.onReadable d _
  | writable results => exact WebSocketConnection.outputInv_onWritable results h

section
variable (setup : WsSetup) {frames : List ClientFrame} {pre post : List WsSessionOp} (hpre : .setup ∉ pre)
  (hu : ∀ o ∈ pre ++ post, o.Undisturbed) (hs : received (pre ++ post) <+: frameCodec.stream frames)
include hpre hu hs

/-- The frames behind those that came before the setup. -/
def later (frames : List ClientFrame) (pre post : List WsSessionOp) : List WebSocketFrame :=
  (arrived frames (pre ++ post)).drop (arrived frames pre).length

/-- **What is queued.** The answers to the frames that came before the setup,
the setup's own calls, and the answers to the frames since. -/
theorem conversation :
    let before := emit ({} : WsSetup).answer true (arrived frames pre)
    let calls := emit sent before.2 setup.calls
    (run (step setup) {} (pre ++ .setup :: post)).conn.queued =
      before.1 ++ (calls.1 ++ (emit setup.answer calls.2 (later frames pre post)).1) := by
  have hupre : ∀ o ∈ pre, o.Undisturbed := fun o ho => hu o (List.mem_append_left _ ho)
  have hupost : ∀ o ∈ post, o.Undisturbed := fun o ho => hu o (List.mem_append_right _ ho)
  have huall : ∀ o ∈ pre ++ .setup :: post, o.Undisturbed := by
    intro o ho
    rcases List.mem_append.mp ho with ho | ho
    · exact hupre o ho
    · rcases List.mem_cons.mp ho with rfl | ho
      · trivial
      · exact hupost o ho
  have hrec : received (pre ++ .setup :: post) = received (pre ++ post) := by
    rw [received_append, received_append]
    rfl
  have hspre : received pre <+: frameCodec.stream frames := by
    rw [received_append] at hs
    exact (List.prefix_append _ _).trans hs
  obtain ⟨fs, h1⟩ := answered_run setup pre (s := {}) ⟨rfl, rfl⟩ hupre (.inr hpre)
  have hfs : fs = arrived frames pre := by
    have hd := h1.dispatched
    rw [(session_reads setup hupre hspre).1] at hd
    exact (List.append_cancel_left hd).symm
  have hr := (session_reads setup huall (hrec ▸ hs)).1
  rw [run_append, run_cons] at hr ⊢
  generalize run (step setup) {} pre = s at h1 hr ⊢
  have hstep : s.step setup .setup = ⟨setup.install s.conn, setup, true⟩ := by
    rw [step, if_neg (by rw [h1.isSetUp]; exact Bool.false_ne_true)]
  rw [hstep] at hr ⊢
  have hcalls := calls_queues setup.calls s.conn
  obtain ⟨fs', h2⟩ := answered_run setup post (s := ⟨setup.install s.conn, setup, true⟩) ⟨rfl, rfl⟩ hupost (.inl rfl)
  have hfs' : fs' = later frames pre post := by
    have hd := h2.dispatched
    rw [hr, hrec, (install_sendsOnly setup s.conn).1, h1.dispatched, List.append_assoc] at hd
    rw [later, ← hfs, ← @List.drop_left _ fs fs']
    exact congrArg (List.drop fs.length) (List.append_cancel_left hd).symm
  rw [← hfs, ← hfs']
  have hopen : s.conn.isOpen = (emit ({} : WsSetup).answer true fs).2 := h1.putsOut.2
  have hinstall : (setup.install s.conn).queued = s.conn.queued ++ (emit sent s.conn.isOpen setup.calls).1 ∧
      (setup.install s.conn).isOpen = (emit sent s.conn.isOpen setup.calls).2 := hcalls
  dsimp only
  rw [h2.putsOut.1]
  dsimp only
  rw [hinstall.1, hinstall.2, h1.putsOut.1, hopen, List.append_assoc]
  rfl

end

end WsSession

/-! ## Replies -/

def pongFrame (payload : Bytes) : WebSocketFrame := { opcode := WsOpcode.PONG, payload }

/-- A CLOSE too short for a code is answered with the one that says so. -/
def closeReply (payload : Bytes) : WebSocketFrame :=
  { opcode := WsOpcode.CLOSE, payload := if payload.length < 2 then [0x03, 0xED] else payload }

/-- The answer to a frame; `lead` is that of the echo route, if its callbacks
are there. -/
def reply (lead : Option Bytes) (isOpen : Bool) (frame : WebSocketFrame) : List WebSocketFrame × Bool :=
  if frame.opcode = WsOpcode.TEXT then (lead.toList.map fun lead => textFrame (lead ++ frame.payload), isOpen)
  else if frame.opcode = WsOpcode.BINARY then
    (lead.toList.map fun _ => { opcode := WsOpcode.BINARY, payload := frame.payload }, isOpen)
  else if frame.opcode = WsOpcode.PING then ([pongFrame frame.payload], isOpen)
  else if frame.opcode = WsOpcode.CLOSE then (if isOpen then [closeReply frame.payload] else [], false)
  else ([], isOpen)

theorem closeFrame_reply (payload : Bytes) :
    Threads.closeFrame (WebSocketConnection.closeReason payload).1 (WebSocketConnection.closeReason payload).2 =
      closeReply payload := by
  unfold Threads.closeFrame closeReply
  by_cases h : payload.length < 2
  · rw [if_pos h, closePayload_short h]
  · rw [if_neg h, closePayload_closeReason (Nat.le_of_not_lt h)]

/-- A setup whose `on_close_` sends nothing answers as its `on_message_` does. -/
theorem answer_eq_reply {setup : WsSetup} {lead : Option Bytes}
    (hclose : ∀ f, setup.onClose = some f → ∀ code reason, f code reason = [])
    (htext : ∀ payload, (setup.onMessage.map fun f => f payload WsOpcode.TEXT).getD [] =
      lead.toList.map fun lead => .sendText (lead ++ payload))
    (hbinary : ∀ payload, (setup.onMessage.map fun f => f payload WsOpcode.BINARY).getD [] =
      lead.toList.map fun _ => .sendBinary payload) : setup.answer = reply lead := by
  funext isOpen frame
  unfold WsSetup.answer reply
  by_cases ht : frame.opcode = WsOpcode.TEXT
  · have hm : isMessage frame = true := (isMessage_iff frame).mpr (.inl ht)
    have hr : (setup.reaction frame).calls = lead.toList.map fun lead => .sendText (lead ++ frame.payload) := by
      rw [WsSetup.reaction, if_pos hm, ht, htext]
    rw [if_pos hm, if_pos ht, hr]
    cases lead <;> rfl
  · rw [if_neg ht]
    by_cases hb : frame.opcode = WsOpcode.BINARY
    · have hm : isMessage frame = true := (isMessage_iff frame).mpr (.inr hb)
      have hr : (setup.reaction frame).calls = lead.toList.map fun _ => .sendBinary frame.payload := by
        rw [WsSetup.reaction, if_pos hm, hb, hbinary]
      rw [if_pos hm, if_pos hb, hr]
      cases lead <;> rfl
    · have hm : ¬ isMessage frame = true := fun h => ((isMessage_iff frame).mp h).elim ht hb
      rw [if_neg hm, if_neg hb]
      by_cases hp : frame.opcode = WsOpcode.PING
      · rw [if_pos hp, if_pos hp]
        rfl
      · rw [if_neg hp, if_neg hp]
        by_cases hc : frame.opcode = WsOpcode.CLOSE
        · have hr : (setup.reaction frame).calls = [] := by
            rw [WsSetup.reaction, if_neg hm]
            cases ho : setup.onClose with
            | none => rfl
            | some f => exact hclose f ho _ _
          rw [if_pos ((isClose_iff frame).mpr hc), if_pos hc, hr]
          dsimp only
          rw [emit_nil, List.append_nil, sent, closeFrame_reply]
        · rw [if_neg (fun h => hc ((isClose_iff frame).mp h)), if_neg hc]

theorem answer_echo (lead : Bytes) : (echoSetup lead).answer = reply (some lead) := by
  refine answer_eq_reply ?_ (fun _ => rfl) (fun _ => rfl)
  intro f hf code reason
  cases hf
  rfl

theorem answer_none (calls : List WsCall) : ({ calls } : WsSetup).answer = reply none := by
  refine answer_eq_reply ?_ (fun _ => rfl) (fun _ => rfl)
  intro f hf
  cases hf

theorem payload_lt (f : ClientFrame) : f.payload.length + 10 < 2 ^ 63 := by
  have hsize := f.size_lt
  have hholds := f.holds
  cases hform : f.form with
  | len7 =>
    rw [hform, LengthForm.Holds] at hholds
    omega
  | len16 =>
    rw [hform, LengthForm.Holds] at hholds
    omega
  | len64 =>
    rw [hform, LengthForm.width] at hsize
    omega

open WebSocketConnection in
theorem reply_plain {lead : Option Bytes} (hlead : ∀ l ∈ lead, l.length ≤ 10) {frame : WebSocketFrame}
    (hframe : frame.payload.length + 10 < 2 ^ 63) (isOpen : Bool) :
    ∀ f ∈ (reply lead isOpen frame).1, Plain f := by
  intro f hf
  unfold reply at hf
  split at hf
  · obtain ⟨l, hl, rfl⟩ := List.mem_map.mp hf
    refine plain_frame (by decide) ?_
    rw [List.length_append]
    have := hlead l (Option.mem_toList.mp hl)
    omega
  split at hf
  · obtain ⟨l, hl, rfl⟩ := List.mem_map.mp hf
    exact plain_frame (by decide) (by omega)
  split at hf
  · rw [List.mem_singleton.mp hf]
    exact plain_frame (by decide) (by omega)
  split at hf
  · dsimp only at hf
    split at hf
    · rw [List.mem_singleton.mp hf]
      refine plain_frame (by decide) ?_
      split
      · decide
      · omega
    · cases hf
  · cases hf

theorem reply_none_control (isOpen : Bool) (frame : WebSocketFrame) :
    ∀ f ∈ (reply none isOpen frame).1, isMessage f = false := by
  intro f hf
  unfold reply at hf
  split at hf
  · cases hf
  split at hf
  · cases hf
  split at hf
  · rw [List.mem_singleton.mp hf]
    rfl
  split at hf
  · dsimp only at hf
    split at hf
    · rw [List.mem_singleton.mp hf]
      rfl
    · cases hf
  · cases hf

theorem arrived_short {frames : List ClientFrame} {ops : List WsSessionOp} :
    ∀ frame ∈ WsSession.arrived frames ops, frame.payload.length + 10 < 2 ^ 63 := by
  intro frame hf
  obtain ⟨f, -, rfl⟩ := List.mem_map.mp hf
  exact payload_lt f

/-! ## The routes of the backend -/

def echoLead (path : Bytes) : Option Bytes :=
  if path = bytes "/ws" then some (bytes "Echo: ") else if path = bytes "/ws2" then some (bytes "Echo2: ") else none

section
variable (sig view : AuthenticatedWsHandlerSetup) (path : Bytes)

theorem lookup_wsRoutes : (backendRoutes sig view).wsRoutes.lookup path =
    (echoLead path).map fun lead _ => echoSetup lead := by
  unfold backendRoutes registerTestRoutes WsRoutes.registerAuthenticatedWebSocketRoute
    WsRoutes.registerWebSocketRoute echoLead
  dsimp only
  by_cases h2 : path = bytes "/ws2"
  · rw [h2, AList.lookup_insert, if_neg (by decide), if_pos rfl]
    rfl
  · rw [AList.lookup_insert_ne h2, if_neg h2]
    by_cases h1 : path = bytes "/ws"
    · rw [h1, AList.lookup_insert, if_pos rfl]
      rfl
    · rw [AList.lookup_insert_ne h1, if_neg h1]
      rfl

/-- The paths of the authenticated routes. -/
def isAuthWsPath (path : Bytes) : Prop := path = bytes "/sig" ∨ path = bytes "/ws/view"

instance : Decidable (isAuthWsPath path) := inferInstanceAs (Decidable (_ ∨ _))

theorem lookup_authWsRoutes : ((backendRoutes sig view).authWsRoutes.lookup path).isSome ↔ isAuthWsPath path := by
  rw [AList.lookup_isSome]
  unfold backendRoutes registerTestRoutes WsRoutes.registerAuthenticatedWebSocketRoute
    WsRoutes.registerWebSocketRoute isAuthWsPath
  rw [AList.mem_insert, AList.mem_insert]
  constructor
  · rintro (h | h | h)
    · exact .inr h
    · exact .inl h
    · exact absurd h (AList.notMem_empty path)
  · rintro (h | h)
    · exact .inr (.inl h)
    · exact .inl h

end

/-- The `auth_func_` of `main`, at the time of the upgrade. -/
def backendAuth (jwtSecret : Option Bytes) (now : Int) : Option ExtractAuthUserFromRequest :=
  some fun request => .ok (extractAuthenticatedUserFromRequest jwtSecret now request)

section
variable {sig view : AuthenticatedWsHandlerSetup} {request : HttpRequest}

theorem echoLead_not_auth {path lead : Bytes} (h : echoLead path = some lead) :
    ¬ isAuthWsPath path ∧ lead.length ≤ 10 := by
  unfold echoLead at h
  split at h
  · rename_i hp
    cases h
    rw [hp]
    decide
  split at h
  · rename_i hp
    cases h
    rw [hp]
    decide
  · cases h

theorem upgrade_echo {lead : Bytes} (h : echoLead request.path = some lead)
    (authFunc : Option ExtractAuthUserFromRequest) :
    (backendRoutes sig view).upgradeToWebSocket authFunc request = echoSetup lead := by
  have hauth := (lookup_authWsRoutes sig view request.path).not.mpr (echoLead_not_auth h).1
  rw [Option.not_isSome_iff_eq_none] at hauth
  rw [WsRoutes.upgradeToWebSocket, hauth]
  dsimp only
  rw [lookup_wsRoutes, h]
  rfl

def refusal (path : Bytes) : Bytes := if isAuthWsPath path then bytes "Unauthorized" else bytes "No route"

theorem upgrade_refused (h : echoLead request.path = none) {jwtSecret : Option Bytes} {now : Int}
    (huser : extractAuthenticatedUserFromRequest jwtSecret now request = none) :
    (backendRoutes sig view).upgradeToWebSocket (backendAuth jwtSecret now) request =
      WsRoutes.refuse (refusal request.path) := by
  have hauth := lookup_authWsRoutes sig view request.path
  rw [WsRoutes.upgradeToWebSocket, refusal, backendAuth]
  cases hl : (backendRoutes sig view).authWsRoutes.lookup request.path with
  | some setup =>
    rw [hl] at hauth
    rw [if_pos (hauth.mp rfl)]
    dsimp only
    rw [huser]
  | none =>
    rw [hl] at hauth
    rw [if_neg (fun hp => Bool.false_ne_true (hauth.mpr hp))]
    dsimp only
    rw [lookup_wsRoutes, h]
    rfl

end

/-! ## What the client decodes -/

section
variable {sig view : AuthenticatedWsHandlerSetup} {request : HttpRequest} {frames : List ClientFrame}
  {pre post : List WsSessionOp}

/-- **Echo.** On an echo route the client decodes the replies to its frames, each
once and in order, and all of them as soon as nothing waits to be sent. -/
theorem echo_conversation {lead : Bytes} (hlead : echoLead request.path = some lead)
    (authFunc : Option ExtractAuthUserFromRequest) (hpre : .setup ∉ pre) (hu : ∀ o ∈ pre ++ post, o.Undisturbed)
    (hs : WsSession.received (pre ++ post) <+: (frames.map ClientFrame.encode).flatten) :
    let setup := (backendRoutes sig view).upgradeToWebSocket authFunc request
    let c := (run (WsSession.step setup) {} (pre ++ .setup :: post)).conn
    let before := emit (reply none) true (WsSession.arrived frames pre)
    let replies := before.1 ++ (emit (reply (some lead)) before.2 (WsSession.later frames pre post)).1
    bufferedFrames c.wire <+: replies ∧ (c.writeQueue = [] → bufferedFrames c.wire = replies) := by
  intro setup c before replies
  have hq : c.queued = replies := by
    have hsetup : setup = echoSetup lead := upgrade_echo hlead authFunc
    have hans : setup.answer = reply (some lead) := by rw [hsetup, answer_echo]
    have hcalls : setup.calls = [] := by rw [hsetup]; rfl
    have h := WsSession.conversation setup hpre hu hs
    dsimp only at h
    rw [hans, hcalls, answer_none []] at h
    exact h
  have hplain : ∀ frame ∈ c.queued, WebSocketConnection.Plain frame := by
    intro frame hf
    rw [hq] at hf
    rcases List.mem_append.mp hf with hf | hf
    · refine forall_mem_emit (fun b f ha => reply_plain ?_ (arrived_short f ha) b) true frame hf
      intro l hl
      cases hl
    · refine forall_mem_emit (fun b f ha => reply_plain ?_ ?_ b) before.2 frame hf
      · intro l hl
        cases hl
        exact (echoLead_not_auth hlead).2
      · exact arrived_short f (List.mem_of_mem_drop ha)
  rw [← hq]
  exact (WsSession.session_output setup _).wire_decodes hplain

theorem echo_conversation_hello :
    let setup := (backendRoutes (fun _ _ => {}) fun _ _ => {}).upgradeToWebSocket none
      { method := .GET, path := bytes "/ws" }
    bufferedFrames (run (WsSession.step setup) {}
      [.setup, .readable ⟨[helloFrame.encode.take 3], .eagain⟩, .readable ⟨[helloFrame.encode.drop 3], .eagain⟩,
        .writable [.accepted 4, .eagain], .writable [.accepted 64]]).conn.wire =
      [textFrame (bytes "Echo: hello")] :=
  (@echo_conversation _ _ { method := .GET, path := bytes "/ws" } [helloFrame] [] _ _ rfl none List.not_mem_nil
    (by simp [WsSessionOp.Undisturbed]) (by decide)).2 rfl

/-- **Refusal.** Without a valid token, on any path but the echo routes', the
client decodes one CLOSE with 1008 and answers to its PINGs and CLOSE, whatever
it sends; no message ever. -/
theorem refused_conversation (hpath : echoLead request.path = none) {jwtSecret : Option Bytes} {now : Int}
    (huser : extractAuthenticatedUserFromRequest jwtSecret now request = none) (hpre : .setup ∉ pre)
    (hu : ∀ o ∈ pre ++ post, o.Undisturbed)
    (hs : WsSession.received (pre ++ post) <+: (frames.map ClientFrame.encode).flatten) :
    let setup := (backendRoutes sig view).upgradeToWebSocket (backendAuth jwtSecret now) request
    let c := (run (WsSession.step setup) {} (pre ++ .setup :: post)).conn
    let before := emit (reply none) true (WsSession.arrived frames pre)
    let refused := if before.2 then [Threads.closeFrame 1008 (refusal request.path)] else []
    let replies := before.1 ++ (refused ++ (emit (reply none) false (WsSession.later frames pre post)).1)
    bufferedFrames c.wire <+: replies ∧ (c.writeQueue = [] → bufferedFrames c.wire = replies) ∧
      ∀ frame ∈ bufferedFrames c.wire, isMessage frame = false := by
  intro setup c before refused replies
  have hq : c.queued = replies := by
    have hsetup : setup = WsRoutes.refuse (refusal request.path) := upgrade_refused hpath huser
    have hans : setup.answer = reply none := by rw [hsetup]; exact answer_none _
    have hcalls : setup.calls = [.close 1008 (refusal request.path)] := by rw [hsetup]; rfl
    have h := WsSession.conversation setup hpre hu hs
    dsimp only at h
    rw [hans, hcalls, answer_none [], emit, emit_nil, sent, List.append_nil] at h
    exact h
  have hclose : WebSocketConnection.Plain (Threads.closeFrame 1008 (refusal request.path)) := by
    refine WebSocketConnection.plain_frame (by decide) ?_
    unfold refusal
    split <;> decide
  have hplain : ∀ frame ∈ c.queued, WebSocketConnection.Plain frame ∧ isMessage frame = false := by
    have hshort : ∀ l ∈ (none : Option Bytes), l.length ≤ 10 := by
      intro l hl
      cases hl
    intro frame hf
    rw [hq] at hf
    rcases List.mem_append.mp hf with hf | hf
    · exact forall_mem_emit (fun b f ha g hg =>
        And.intro (reply_plain hshort (arrived_short f ha) b g hg) (reply_none_control b f g hg)) true frame hf
    rcases List.mem_append.mp hf with hf | hf
    · cases hb : before.2 with
      | false =>
        rw [show refused = [] from if_neg (by rw [hb]; exact Bool.false_ne_true)] at hf
        cases hf
      | true =>
        rw [show refused = [_] from if_pos hb, List.mem_singleton] at hf
        rw [hf]
        exact ⟨hclose, rfl⟩
    · exact forall_mem_emit (fun b f ha g hg =>
        And.intro (reply_plain hshort (arrived_short f (List.mem_of_mem_drop ha)) b g hg)
          (reply_none_control b f g hg)) false frame hf
  have hout := WsSession.session_output setup (pre ++ .setup :: post)
  have hwire := hout.wire_decodes fun frame hf => (hplain frame hf).1
  refine ⟨?_, ?_, ?_⟩
  · rw [← hq]
    exact hwire.1
  · rw [← hq]
    exact hwire.2
  · intro frame hf
    exact (hplain frame (hwire.1.subset hf)).2

theorem refused_conversation_hello :
    let setup := (backendRoutes (fun _ _ => {}) fun _ _ => {}).upgradeToWebSocket (backendAuth none 0)
      { method := .GET, path := bytes "/sig" }
    bufferedFrames (run (WsSession.step setup) {}
      [.setup, .readable ⟨[helloFrame.encode], .eagain⟩, .writable [.accepted 64]]).conn.wire =
      [Threads.closeFrame 1008 (bytes "Unauthorized")] :=
  (@refused_conversation _ _ { method := .GET, path := bytes "/sig" } [helloFrame] [] _ rfl _ _ rfl List.not_mem_nil
    (by simp [WsSessionOp.Undisturbed]) (by decide)).2.1 rfl

end

end Ryklys

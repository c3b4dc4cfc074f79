import Ryklys.Strings

/-!
# The media of a streamer

What the callbacks of `createPeerConnection` do with the RTP packets of a
streamer and with the FFmpeg process of the session. Messages of the tracks
come on one thread and changes of state on another, so the steps of the two
callbacks go in any order; the destructor runs when neither holds the session.
-/

namespace Ryklys

inductive RtcMessage where
  | binary (data : Bytes)
  | text (data : Bytes)
  deriving DecidableEq, Repr

inductive PeerConnectionState where
  | New
  | Connecting
  | Connected
  | Disconnected
  | Failed
  | Closed
  deriving DecidableEq, Repr

inductive UdpSocket where
  | video
  | audio
  deriving DecidableEq, Repr

/-- What a session does to the files, the processes and the network. -/
inductive MediaEvent where
  | sdpFile (filename content : Bytes)
  | popen (command : Bytes) (spawned : Bool)
  -- `q` to the standard input of FFmpeg
  | quit
  | pclose
  | sendto (socket : UdpSocket) (port : Nat) (data : Bytes)
  deriving DecidableEq, Repr

/-- Where the callback of a message is. -/
inductive MessagePhase where
  | idle
  -- the first video packet, in front of `popen`
  | starting (pt : UInt8) (message : Bytes)
  | sending (socket : UdpSocket) (message : Bytes)
  deriving DecidableEq, Repr

/-- Where the callback of a state is. -/
inductive StatePhase where
  | idle
  | closing
  | closed
  deriving DecidableEq, Repr

/-- What does not change in a session. -/
structure MediaConfig where
  streamId : Bytes
  outputDirectory : Bytes := bytes "./recordings"
  outputFormat : Bytes := bytes ".m3u8"
  socketFd : UdpSocket → Int
  udpPort : UdpSocket → Int

structure StreamerMedia where
  -- the types of the tracks
  incomingTracks : List Bytes := []
  videoPacketCounter : Int := 0
  -- whether the pointer is set
  ffmpegProcess : Bool := false
  destroyed : Bool := false
  message : MessagePhase := .idle
  state : StatePhase := .idle
  log : List MediaEvent := []
  -- the messages the callbacks were given, with the types of their tracks
  received : List (Bytes × RtcMessage) := []

inductive MediaOp where
  | track (trackType : Bytes)
  -- the callback of a track, up to `popen` or to the datagram
  | message (track : Nat) (data : RtcMessage)
  | popen (spawned : Bool)
  | send
  -- the callback of a state, up to `pclose`
  | stateChange (state : PeerConnectionState)
  | pclose
  | clear
  | destroy

/-! ## Packets -/

/-- The payload type of a packet that is not dropped. -/
def payloadType : Bytes → Option UInt8
  | _ :: byte1 :: rest =>
    if 200 ≤ byte1 && byte1 ≤ 206 then none
    else if 72 ≤ byte1 &&& 0x7F && byte1 &&& 0x7F ≤ 76 && rest.length + 2 < 200 then none
    else some (byte1 &&& 0x7F)
  | _ => none

/-- `++` on the counter. -/
def nextCount (count : Int) : Int := if count = 2 ^ 31 - 1 then -(2 ^ 31) else count + 1

def socketOf (trackType : Bytes) : Option UdpSocket :=
  if trackType = bytes "video" then some .video else if trackType = bytes "audio" then some .audio else none

/-! ## FFmpeg -/

/-- The fixed arguments in front of the SDP file. -/
def ffmpegInput : Bytes :=
  bytes "ffmpeg -hide_banner -loglevel info -protocol_whitelist file,udp,rtp -analyzeduration 2000000 "
    ++ bytes "-probesize 1000000 -fflags +genpts+discardcorrupt+nobuffer -flags low_delay "
    ++ bytes "-use_wallclock_as_timestamps 1 -i"

/-- Those in front of the playlist. -/
def ffmpegOutput : Bytes :=
  bytes "-c:v libx264 -preset ultrafast -tune zerolatency -crf 23 -r 30 -g 30 -keyint_min 30 -an -f hls "
    ++ bytes "-hls_time 1 -hls_list_size 3 -hls_flags delete_segments+append_list -flush_packets 1 -y"

namespace MediaConfig

variable (c : MediaConfig)

def sdpContent (pt : UInt8) : Bytes :=
  bytes "v=0\no=- 0 0 IN IP4 127.0.0.1\ns=Ryklys Node Stream\nc=IN IP4 127.0.0.1\nt=0 0\nm=video "
    ++ Numeral.ofInt (c.udpPort .video) ++ bytes " RTP/AVP " ++ Numeral.ofNat pt.toNat ++ bytes "\na=rtpmap:"
    ++ Numeral.ofNat pt.toNat ++ bytes " H264/90000\na=fmtp:" ++ Numeral.ofNat pt.toNat
    ++ bytes " profile-level-id=42e01f;level-asymmetry-allowed=1;packetization-mode=1\n"

def sdpFilename : Bytes := bytes "/tmp/" ++ c.streamId ++ bytes ".sdp"

def outputPath : Bytes :=
  c.outputDirectory ++ bytes "/" ++ c.streamId ++ bytes "/" ++ c.streamId ++ c.outputFormat

def ffmpegCmd : Bytes :=
  ffmpegInput ++ bytes " " ++ c.sdpFilename ++ bytes " " ++ ffmpegOutput ++ bytes " " ++ c.outputPath

/-- Without a socket nothing is sent. -/
def sendUdpPacket (socket : UdpSocket) (data : Bytes) : List MediaEvent :=
  if c.socketFd socket < 0 then [] else [.sendto socket (c.udpPort socket % 2 ^ 16).toNat data]

end MediaConfig

/-! ## The callbacks -/

namespace StreamerMedia

variable (c : MediaConfig) (s : StreamerMedia)

def onPacket (trackType message : Bytes) : StreamerMedia :=
  match payloadType message, socketOf trackType with
  | some pt, some .video =>
    { s with
      videoPacketCounter := nextCount s.videoPacketCounter
      message := if s.videoPacketCounter = 0 then .starting pt message else .sending .video message }
  | some _, some .audio => { s with message := .sending .audio message }
  | _, _ => s

/-- A message is given to the callback of its track. -/
def receive (trackType : Bytes) (data : RtcMessage) : StreamerMedia :=
  { s with received := s.received ++ [(trackType, data)] }

def onMessage (trackType : Bytes) (data : RtcMessage) : StreamerMedia :=
  match data with
  | .binary message => s.onPacket trackType message
  | .text _ => s

def popen (spawned : Bool) : StreamerMedia :=
  match s.message with
  | .starting pt message =>
    { s with
      log := s.log ++ [.sdpFile c.sdpFilename (c.sdpContent pt), .popen c.ffmpegCmd spawned]
      ffmpegProcess := spawned
      message := .sending .video message }
  | _ => s

def send : StreamerMedia :=
  match s.message with
  | .sending socket message => { s with log := s.log ++ c.sendUdpPacket socket message, message := .idle }
  | _ => s

/-- The streamer is gone, or may come back. -/
def lost : PeerConnectionState → Bool
  | .Disconnected => true
  | .Failed => true
  | .Closed => true
  | _ => false

def onStateChange (state : PeerConnectionState) : StreamerMedia :=
  if lost state ∧ s.ffmpegProcess then { s with log := s.log ++ [.quit], state := .closing } else s

/-- `~StreamerSession`. -/
def destroy : StreamerMedia :=
  { s with log := if s.ffmpegProcess then s.log ++ [.quit, .pclose] else s.log, destroyed := true }

/-- A callback of a session that is gone does nothing. -/
def step : MediaOp → StreamerMedia
  | .track trackType => if s.destroyed then s else { s with incomingTracks := s.incomingTracks ++ [trackType] }
  | .message track data =>
    match s.incomingTracks[track]? with
    | some trackType =>
      if s.message = .idle ∧ ¬ s.destroyed then (s.receive trackType data).onMessage trackType data else s
    | none => s
  | .popen spawned => s.popen c spawned
  | .send => s.send c
  | .stateChange state => if s.state = .idle ∧ ¬ s.destroyed then s.onStateChange state else s
  | .pclose => if s.state = .closing then { s with log := s.log ++ [.pclose], state := .closed } else s
  | .clear => if s.state = .closed then { s with ffmpegProcess := false, state := .idle } else s
  | .destroy => if s.message = .idle ∧ s.state = .idle ∧ ¬ s.destroyed then s.destroy else s

end StreamerMedia

end Ryklys

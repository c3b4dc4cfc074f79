import Ryklys.StreamPocket

/-!
# SegmentUploader

A recording: FFmpeg writes segments and the playlist into a directory, the
uploader thread of the session sends them to StreamPocket, whose PUT handler
stores what it accepts. What FFmpeg writes, what a directory scan returns and
what becomes of a request are the environment's.
-/

namespace Ryklys

/-! ## The session -/

structure UploadConfig where
  streamId : Bytes
  -- the key that the uploader sends
  secret : Bytes
  pocket : StreamPocket

/-- What becomes of a request: whether it reaches StreamPocket, how the file
operations there turn out, and whether the answer comes back. -/
structure Transfer where
  reached : Bool
  outcome : FileOutcome
  answered : Bool

namespace UploadConfig

variable (u : UploadConfig)

def m3u8Name : Bytes := u.streamId ++ bytes ".m3u8"

/-- The file of StreamPocket for a name under the stream. -/
def storedPath (filename : Bytes) : List Bytes := normalPath (u.pocket.path u.streamId filename)

/-- The request of `SegmentUploader::upload`, as the PUT handler gets it. -/
def putRequest (filename contents : Bytes) : HttpRequest where
  method := .PUT
  headers := AList.insert (bytes "X-Storage-Key") u.secret ∅
  pathParams := StreamPocket.segmentParams u.streamId filename
  body := contents

/-- What StreamPocket makes of it, and whether it answers 200. -/
def put (files : Files) (filename contents : Bytes) (t : Transfer) : Files × Bool :=
  if t.reached then
    let r := u.pocket.putSegment files t.outcome (u.putRequest filename contents)
    (r.1, match r.2 with
      | .ok response => response.statusCode = 200
      | .error _ => false)
  else (files, false)

end UploadConfig

/-- The segments that a playlist lists. -/
def listedIn (text : Bytes) : List Bytes :=
  (text.splitOn 10).filter fun line => !line.isEmpty && line.head? != some 35

/-- Where the uploader thread is; `last` in the pass behind its loop. -/
inductive UploaderAt where
  | sleeping
  | scanning (last : Bool)
  | uploading (last : Bool) (filename contents : Bytes)
  | atPlaylist (last : Bool)
  | uploadingPlaylist (last : Bool) (text : Bytes)
  | finished
  deriving DecidableEq, Repr

namespace UploaderAt

def busy : UploaderAt → Bool
  | uploading _ _ _ | uploadingPlaylist _ _ => true
  | _ => false

/-- The segment that is being uploaded. -/
def segment : UploaderAt → Option Bytes
  | uploading _ filename _ => some filename
  | _ => none

/-- The playlist that is being uploaded. -/
def playlist : UploaderAt → Option Bytes
  | uploadingPlaylist _ text => some text
  | _ => none

/-- The body that is being sent. -/
def body : UploaderAt → Option Bytes
  | uploading _ _ contents => some contents
  | uploadingPlaylist _ text => some text
  | _ => none

end UploaderAt

structure Recording where
  -- the directory: its segments, by name, and the playlist
  segments : Bytes → Option Bytes
  playlist : Option Bytes
  -- FFmpeg: the segment it has open, those it has finished, the names it has used
  writing : Option Bytes := none
  finished : List Bytes := []
  used : List Bytes := []
  uploader : UploaderAt := .sleeping
  uploaded : List Bytes := []
  -- StreamPocket, and the segments that it has answered 200 for
  files : Files
  taken : List Bytes := []

inductive RecordingOp where
  -- FFmpeg
  | openNext (name : Bytes)
  | append (bs : Bytes)
  | finish (text : Bytes)
  | delete (name : Bytes)
  -- the uploader thread
  | wake (live : Bool)
  | entry (name : Bytes)
  | scanEnds
  | playlist
  | uploadEnds (t : Transfer)

namespace Recording

/-- A session begins, whatever earlier ones have left in the directory and on
StreamPocket. -/
def start (segments : Bytes → Option Bytes) (playlist : Option Bytes) (files : Files) : Recording :=
  { segments, playlist, files }

variable (u : UploadConfig) (s : Recording)

/-- FFmpeg never opens a name again. -/
def openNext (name : Bytes) : Recording :=
  if s.writing = none ∧ name ∉ s.used ∧ endsWith name (bytes ".ts") = true then
    { s with
      segments := Function.update s.segments name (some [])
      writing := some name
      used := s.used ++ [name] }
  else s

def append (bs : Bytes) : Recording :=
  match s.writing with
  | none => s
  | some name =>
    { s with segments := Function.update s.segments name (some ((s.segments name).getD [] ++ bs)) }

/-- The segment is finished, and the playlist rewritten to list it. -/
def finish (text : Bytes) : Recording :=
  match s.writing with
  | none => s
  | some name =>
    if name ∈ listedIn text then
      { s with
        writing := none
        finished := s.finished ++ [name]
        playlist := some text }
    else s

def delete (name : Bytes) : Recording :=
  if s.writing ≠ some name then { s with segments := Function.update s.segments name none } else s

/-- The scan comes to a directory entry. -/
def entry (name : Bytes) : Recording :=
  match s.uploader with
  | .scanning last =>
    if endsWith name (bytes ".ts") = true ∧ name ∉ s.uploaded then
      match s.segments name with
      | none => s
      | some contents => { s with uploader := .uploading last name contents }
    else s
  | _ => s

def scanEnds : Recording :=
  match s.uploader with
  | .scanning last => { s with uploader := .atPlaylist last }
  | _ => s

def afterPlaylist (last : Bool) : UploaderAt := if last then .finished else .sleeping

def sendPlaylist : Recording :=
  match s.uploader with
  | .atPlaylist last =>
    match s.playlist with
    | none => { s with uploader := afterPlaylist last }
    | some text => { s with uploader := .uploadingPlaylist last text }
  | _ => s

def uploadEnds (t : Transfer) : Recording :=
  match s.uploader with
  | .uploading last filename contents =>
    let r := u.put s.files filename contents t
    { s with
      files := r.1
      taken := if r.2 then s.taken ++ [filename] else s.taken
      -- the last pass keeps no record
      uploaded := if r.2 && t.answered && !last then s.uploaded ++ [filename] else s.uploaded
      uploader := .scanning last }
  | .uploadingPlaylist last text =>
    let r := u.put s.files u.m3u8Name text t
    { s with files := r.1, uploader := afterPlaylist last }
  | _ => s

def step : RecordingOp → Recording
  | .openNext name => s.openNext name
  | .append bs => s.append bs
  | .finish text => s.finish text
  | .delete name => s.delete name
  | .wake live => if s.uploader = .sleeping then { s with uploader := .scanning (!live) } else s
  | .entry name => s.entry name
  | .scanEnds => s.scanEnds
  | .playlist => s.sendPlaylist
  | .uploadEnds t => s.uploadEnds u t

end Recording

end Ryklys

import Ryklys.Paths
import Ryklys.Server

/-!
# StreamPocket

The segment store: the three handlers of `RegisterSegmentRoutes` on the files
below `StorageConfig::BaseDir()`, and the server they are registered with. A
handler checks its request first; what it accepts is a file operation on the
path made from the two parameters. How the operations of a request turn out is
the environment's.
-/

namespace Ryklys

open Search

/-- The regular files by the normal form of their path. -/
abbrev Files := List Bytes → Option Bytes

abbrev normalPath : Bytes → List Bytes := Paths.normal 47 46

/-- How the file operations of one request turn out. -/
structure FileOutcome where
  -- create_directories and remove return rather than throw
  creates : Bool
  removes : Bool
  opens : Bool
  -- no read error
  reads : Bool
  -- the path names a directory
  directory : Bool
  -- how many bytes the disk takes
  room : Nat

inductive SegmentCheck where
  | accepted (streamId filename : Bytes)
  | rejected (answer : Except Exn HttpResponse)

def isSafe (s : Bytes) : Bool :=
  !s.isEmpty && (find (bytes "..") s).isNone && !s.contains 47 && !s.contains 92 && !s.contains 37 && !s.contains 0

def endsWith (s suffix : Bytes) : Bool := suffix.isSuffixOf s

structure StreamPocket where
  baseDir : Bytes
  -- STREAM_POCKET_SECRET
  secret : Bytes
  cors : CorsConfig

/-- `HttpResponse::File`. -/
def HttpResponse.file (files : Files) (o : FileOutcome) (filePath : Bytes) : Except Exn HttpResponse :=
  if !o.opens then .ok (.notFound (bytes "File not found"))
  else
    match files (normalPath filePath) with
    | none => if o.directory then .error .other else .ok (.notFound (bytes "File not found"))
    | some contents =>
      if !o.reads then .error .other
      else
        let contentType :=
          if endsWith filePath (bytes ".m3u8") then bytes "application/vnd.apple.mpegurl"
          else if endsWith filePath (bytes ".ts") then bytes "video/mp2t"
          else bytes "application/octet-stream"
        .ok { statusCode := 200, statusText := bytes "OK", body := contents,
              headers := AList.insert (bytes "Content-Type") contentType ∅ }

namespace StreamPocket

variable (P : StreamPocket)

def path (streamId filename : Bytes) : Bytes := P.baseDir ++ 47 :: streamId ++ 47 :: filename

/-! ## The checks -/

/-- What `MatchPattern` puts into the request for the route of a segment. -/
def segmentParams (s f : Bytes) : StrMap := (AList.insert (bytes "streamId") s ∅).insert (bytes "filename") f

def checkGet (req : HttpRequest) : SegmentCheck :=
  match req.pathParams.lookup (bytes "streamId"), req.pathParams.lookup (bytes "filename") with
  | some streamId, some filename =>
    if !isSafe streamId || !isSafe filename then .rejected (.ok (.forbidden (bytes "Invalid path")))
    else if !endsWith filename (bytes ".ts") && !endsWith filename (bytes ".m3u8") then
      .rejected (.ok (.forbidden (bytes "Invalid file type")))
    else .accepted streamId filename
  | _, _ => .rejected (.error .other)

def checkPut (req : HttpRequest) : SegmentCheck :=
  if req.headers.lookup (bytes "X-Storage-Key") ≠ some P.secret then
    .rejected (.ok (.unauthorized (bytes "Invalid or missing storage key")))
  else
    match req.pathParams.lookup (bytes "streamId"), req.pathParams.lookup (bytes "filename") with
    | some streamId, some filename =>
      if !isSafe streamId || !isSafe filename then .rejected (.ok (.forbidden (bytes "Invalid path")))
      else if !endsWith filename (bytes ".ts") && !endsWith filename (bytes ".m3u8") then
        .rejected (.ok (.forbidden (bytes "Invalid file type")))
      else .accepted streamId filename
    | _, _ => .rejected (.error .other)

/-- DELETE has no check of the file type. -/
def checkDelete (req : HttpRequest) : SegmentCheck :=
  if req.headers.lookup (bytes "X-Storage-Key") ≠ some P.secret then
    .rejected (.ok (.unauthorized (bytes "Invalid or missing storage key")))
  else
    match req.pathParams.lookup (bytes "streamId"), req.pathParams.lookup (bytes "filename") with
    | some streamId, some filename =>
      if !isSafe streamId || !isSafe filename then .rejected (.ok (.forbidden (bytes "Invalid path")))
      else .accepted streamId filename
    | _, _ => .rejected (.error .other)

/-! ## The handlers -/

def getSegment (files : Files) (o : FileOutcome) (req : HttpRequest) : Files × Except Exn HttpResponse :=
  match checkGet req with
  | .rejected answer => (files, answer)
  | .accepted streamId filename => (files, HttpResponse.file files o (P.path streamId filename))

/-- The write is not checked: the file holds what the disk took. -/
def putSegment (files : Files) (o : FileOutcome) (req : HttpRequest) : Files × Except Exn HttpResponse :=
  match P.checkPut req with
  | .rejected answer => (files, answer)
  | .accepted streamId filename =>
    if !o.creates then (files, .error .other)
    else if !o.opens then (files, .ok (.internalServerError (bytes "Failed to write file")))
    else
      (Function.update files (normalPath (P.path streamId filename)) (some (req.body.take o.room)),
        .ok (.ok (bytes "Stored")))

def deleteSegment (files : Files) (o : FileOutcome) (req : HttpRequest) : Files × Except Exn HttpResponse :=
  match P.checkDelete req with
  | .rejected answer => (files, answer)
  | .accepted streamId filename =>
    match files (normalPath (P.path streamId filename)) with
    | some _ =>
      if o.removes then
        (Function.update files (normalPath (P.path streamId filename)) none, .ok (.ok (bytes "Deleted")))
      else (files, .error .other)
    | none =>
      if !o.directory then (files, .ok (.notFound (bytes "File not found")))
      else if o.removes then (files, .ok (.ok (bytes "Deleted")))
      else (files, .error .other)

/-! ## The server -/

def segmentPattern : Bytes := bytes "/api/segments/\x7bstreamId\x7d/\x7bfilename\x7d"

/-- `RegisterHealthRoutes`, then `RegisterSegmentRoutes`. -/
def server (files : Files) (o : FileOutcome) : ZvejysServer :=
  ((((ZvejysServer.new P.cors none).registerRoute .GET (bytes "/api/health")
      (some fun _ => .ok (.ok (bytes "I`m alive")))).registerRoute .GET segmentPattern
        (some fun req => (P.getSegment files o req).2)).registerRoute .PUT segmentPattern
          (some fun req => (P.putSegment files o req).2)).registerRoute .DELETE segmentPattern
            (some fun req => (P.deleteSegment files o req).2)

def effect (files : Files) (o : FileOutcome) (id : Nat) (req : HttpRequest) : Files :=
  match id with
  | 1 => (P.getSegment files o req).1
  | 2 => (P.putSegment files o req).1
  | 3 => (P.deleteSegment files o req).1
  | _ => files

/-- One request from the call of `HandleRead` on. -/
def serve (files : Files) (o : FileOutcome) (request : HttpRequest) : Files × Answer :=
  let S := P.server files o
  (match S.called request with
    | some (node, req) => P.effect files o node.id req
    | none => files,
   S.handleRead request)

end StreamPocket

end Ryklys

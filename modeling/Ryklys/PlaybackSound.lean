import Ryklys.Runs
import Ryklys.StorageSound
import Ryklys.Validation

/-!
# Upload and playback name the same file

`SegmentUploader::upload` and the viewer page build the URL of a segment on
their own. For a validated username and a file that FFmpeg names, both lead to
the file `BaseDir/<username>/<filename>`, so what was uploaded last is what is
played back (`playback`), whatever requests for other such files come between.
-/

namespace Ryklys

open Search validation

/-! ## The two URLs -/

def uploadTarget (streamId filename : Bytes) : Bytes := bytes "/api/segments/" ++ streamId ++ 47 :: filename

/-- The target in `streamUrl` of `StreamView.tsx`. -/
def streamTarget (username : Bytes) : Bytes :=
  bytes "/api/segments/" ++ username ++ 47 :: username ++ bytes ".m3u8"

/-- A relative reference replaces what is behind the last slash. -/
def resolve (base ref : Bytes) : Bytes := (base.reverse.dropWhile (· ≠ 47)).reverse ++ ref

/-- The playlist, or a segment that it lists by its name. -/
def playbackTarget (username filename : Bytes) : Bytes :=
  if filename = username ++ bytes ".m3u8" then streamTarget username else resolve (streamTarget username) filename

/-- The files that FFmpeg makes for a stream. -/
inductive Recorded (u : Bytes) : Bytes → Prop where
  | playlist : Recorded u (u ++ bytes ".m3u8")
  | segment (digits : Bytes) (hne : digits ≠ []) (hd : ∀ c ∈ digits, Numeral.isDigit c = true) :
      Recorded u (u ++ digits ++ bytes ".ts")

/-! ## Names -/

section
variable {u f : Bytes}

theorem not_mem_of_nameChars {d : UInt8} (hd : isNameChar d = false) (hu : ∀ c ∈ u, isNameChar c = true) : d ∉ u := by
  intro h
  rw [hu d h] at hd
  cases hd

theorem isNameChar_digit {c : UInt8} (h : Numeral.isDigit c = true) : isNameChar c = true := by
  simp [isNameChar, isAlnum, h]

theorem isSafe_dotted {a b : Bytes} (ha : ∀ c ∈ a, isNameChar c = true) (hb : ∀ c ∈ b, isNameChar c = true) :
    isSafe (a ++ 46 :: b) = true := by
  have hmem : ∀ d, isNameChar d = false → d ≠ 46 → d ∉ a ++ 46 :: b := by
    intro d hd h46
    simp [not_mem_of_nameChars hd ha, not_mem_of_nameChars hd hb, h46]
  refine isSafe_iff.mpr ⟨by simp, ?_, hmem 47 rfl (by decide), hmem 92 rfl (by decide), hmem 37 rfl (by decide),
    hmem 0 rfl (by decide)⟩
  rw [← find_eq_none, show bytes ".." = [46, 46] from rfl, find_skip _ (not_mem_of_nameChars rfl ha), Option.map_eq_none_iff,
    find_eq_none, List.infix_cons_iff]
  have hb46 := not_mem_of_nameChars (d := 46) rfl hb
  intro h
  rcases h with h | h
  · exact hb46 ((List.cons_prefix_cons.mp h).2.subset (by simp))
  · exact hb46 (h.subset (by simp))

theorem isSafe_name (hne : u ≠ []) (hu : ∀ c ∈ u, isNameChar c = true) : isSafe u = true := by
  refine isSafe_iff.mpr ⟨hne, ?_, not_mem_of_nameChars rfl hu, not_mem_of_nameChars rfl hu, not_mem_of_nameChars rfl hu,
    not_mem_of_nameChars rfl hu⟩
  intro h
  exact not_mem_of_nameChars (d := 46) rfl hu (h.subset (by decide))

theorem valid_ne_nil (hu : validateUsername u = none) : u ≠ [] := by
  intro h
  subst h
  cases hu

theorem recorded_shape (hu : validateUsername u = none) (hf : Recorded u f) :
    ∃ a b, f = a ++ 46 :: b ∧ (∀ c ∈ a, isNameChar c = true) ∧ (∀ c ∈ b, isNameChar c = true) ∧
      (endsWith f (bytes ".ts") || endsWith f (bytes ".m3u8")) = true := by
  have hc := nameChars_of_valid hu
  cases hf with
  | playlist =>
    refine ⟨u, bytes "m3u8", rfl, hc, List.all_eq_true.mp rfl, ?_⟩
    simp [endsWith]
  | segment digits hne hd =>
    refine ⟨u ++ digits, bytes "ts", rfl, ?_, List.all_eq_true.mp rfl, ?_⟩
    · intro c hcm
      rcases List.mem_append.mp hcm with h | h
      · exact hc c h
      · exact isNameChar_digit (hd c h)
    · rw [endsWith, List.isSuffixOf_iff_suffix.mpr (List.suffix_append _ _), Bool.true_or]

theorem recorded_isSafe (hu : validateUsername u = none) (hf : Recorded u f) : isSafe f = true := by
  obtain ⟨a, b, rfl, ha, hb, -⟩ := recorded_shape hu hf
  exact isSafe_dotted ha hb

theorem recorded_ne_dot (hu : validateUsername u = none) (hf : Recorded u f) : f ≠ bytes "." := by
  have h3 := List.length_pos_of_ne_nil (valid_ne_nil hu)
  intro h
  have hl := congrArg List.length h
  cases hf with
  | playlist => simp [bytes] at hl
  | segment digits hne hd =>
    simp [bytes] at hl
    omega

theorem ordinary_name (hu : validateUsername u = none) : Ordinary u := by
  refine ordinary_of_isSafe (isSafe_name (valid_ne_nil hu) (nameChars_of_valid hu)) ?_
  intro h
  subst h
  cases hu

theorem ordinary_recorded (hu : validateUsername u = none) (hf : Recorded u f) : Ordinary f :=
  ordinary_of_isSafe (recorded_isSafe hu hf) (recorded_ne_dot hu hf)

/-! ## Targets -/

theorem uploadTarget_eq (u f : Bytes) :
    uploadTarget u f = [] ++ 47 :: (bytes "api" ++ 47 :: (bytes "segments" ++ 47 :: (u ++ 47 :: f))) := by
  simp [uploadTarget, bytes]

theorem segments_uploadTarget (hu : Ordinary u) (hf : Ordinary f) :
    ZvejysServer.segments (uploadTarget u f) = [bytes "api", bytes "segments", u, f] := by
  rw [ZvejysServer.segments, uploadTarget_eq, List.splitOn_append_cons_self_of_not_mem (by simp),
    List.splitOn_append_cons_self_of_not_mem (by decide), List.splitOn_append_cons_self_of_not_mem (by decide),
    List.splitOn_append_cons_self_of_not_mem hu.no_sep, List.splitOn_eq_singleton hf.no_sep]
  simp [hu.ne_nil, hf.ne_nil, bytes]

theorem splitTarget_uploadTarget (hu : validateUsername u = none) (hf : Recorded u f) :
    (splitTarget (uploadTarget u f)).1 = uploadTarget u f := by
  have hc := nameChars_of_valid hu
  obtain ⟨a, b, rfl, ha, hb, -⟩ := recorded_shape hu hf
  have hq : find (bytes "?") (uploadTarget u (a ++ 46 :: b)) = none := by
    rw [show bytes "?" = [63] from rfl]
    apply find_singleton_none
    rw [uploadTarget]
    simp [not_mem_of_nameChars (d := 63) rfl hc, not_mem_of_nameChars (d := 63) rfl ha,
      not_mem_of_nameChars (d := 63) rfl hb, bytes]
  simp only [splitTarget, hq]

theorem resolve_append {base : Bytes} (pre last ref : Bytes) (h : base = pre ++ 47 :: last) (hl : 47 ∉ last) :
    resolve base ref = pre ++ 47 :: ref := by
  subst h
  rw [resolve, List.reverse_append, List.reverse_cons, List.append_assoc, List.dropWhile_append_of_pos]
  · simp
  · intro c hc
    have : c ≠ 47 := by
      intro h
      exact hl (List.mem_reverse.mp (h ▸ hc))
    simpa using this

theorem playbackTarget_eq (hu : validateUsername u = none) (f : Bytes) :
    playbackTarget u f = uploadTarget u f := by
  unfold playbackTarget
  split
  · rename_i h
    rw [h, streamTarget, uploadTarget, List.append_assoc, List.cons_append]
  · refine resolve_append (bytes "/api/segments/" ++ u) (u ++ bytes ".m3u8") f ?_ ?_
    · rw [streamTarget, List.append_assoc, List.cons_append]
    · exact (ordinary_recorded hu .playlist).no_sep

end

/-! ## Dispatch -/

namespace StreamPocket

theorem matchPattern_segment {path s f : Bytes}
    (h : ZvejysServer.segments path = [bytes "api", bytes "segments", s, f]) :
    ZvejysServer.matchPattern segmentPattern path ∅ = (true, segmentParams s f) := by
  have hp : ZvejysServer.segments segmentPattern =
      [bytes "api", bytes "segments", bytes "\x7bstreamId\x7d", bytes "\x7bfilename\x7d"] := by decide
  rw [ZvejysServer.matchPattern, h, hp]
  rfl

theorem routed_segment {request : HttpRequest} {u f : Bytes} {id : Nat} (hu : Ordinary u) (hf : Ordinary f)
    (hp : request.path = uploadTarget u f) (hup : isWsUpgrade request = false)
    (hid : segmentHandler request.method = some id) :
    routed request = some (id, { request with pathParams := segmentParams u f }) := by
  have hpre : isCorsPreflight request = false := by
    have hm : request.method ≠ .OPTIONS := by
      intro h
      rw [h] at hid
      cases hid
    simp [isCorsPreflight, hm]
  have hs := segments_uploadTarget hu hf
  have hh : request.path ≠ bytes "/api/health" := by
    intro he
    rw [← hp, he] at hs
    have hl : (ZvejysServer.segments (bytes "/api/health")).length = 2 := by decide
    rw [hs] at hl
    cases hl
  rw [routed, hup, hpre, if_neg (by decide), if_neg hh, hp, matchPattern_segment hs, if_pos rfl, hid]
  rfl

theorem lookup_segmentParams (s f : Bytes) :
    (segmentParams s f).lookup (bytes "streamId") = some s ∧ (segmentParams s f).lookup (bytes "filename") = some f := by
  refine ⟨?_, AList.lookup_insert _⟩
  rw [segmentParams, AList.lookup_insert_ne (by decide), AList.lookup_insert]

section
variable {u f : Bytes} (hu : validateUsername u = none) (hf : Recorded u f)
include hu hf

theorem recorded_checks : (!isSafe u || !isSafe f) = false ∧
    (!endsWith f (bytes ".ts") && !endsWith f (bytes ".m3u8")) = false := by
  obtain ⟨a, b, -, -, -, he⟩ := recorded_shape hu hf
  rw [isSafe_name (valid_ne_nil hu) (nameChars_of_valid hu), recorded_isSafe hu hf, ← Bool.not_or, he]
  exact ⟨rfl, rfl⟩

theorem checkGet_recorded (req : HttpRequest) (hp : req.pathParams = segmentParams u f) :
    checkGet req = .accepted u f := by
  obtain ⟨h1, h2⟩ := recorded_checks hu hf
  obtain ⟨hs, hn⟩ := lookup_segmentParams u f
  simp only [checkGet, hp, hs, hn, h1, h2]
  rfl

theorem checkPut_recorded (P : StreamPocket) (req : HttpRequest) (hp : req.pathParams = segmentParams u f)
    (hkey : req.headers.lookup (bytes "X-Storage-Key") = some P.secret) : P.checkPut req = .accepted u f := by
  obtain ⟨h1, h2⟩ := recorded_checks hu hf
  obtain ⟨hs, hn⟩ := lookup_segmentParams u f
  rw [checkPut, if_neg (not_not_intro hkey)]
  simp only [hp, hs, hn, h1, h2]
  rfl

end

/-! ## The round trip -/

structure Succeeds (o : FileOutcome) (body : Bytes) : Prop where
  creates : o.creates = true
  opens : o.opens = true
  reads : o.reads = true
  room : body.length ≤ o.room

variable (P : StreamPocket)

structure Uploads (request : HttpRequest) (u f : Bytes) : Prop where
  method : request.method = .PUT
  path : request.path = (splitTarget (uploadTarget u f)).1
  key : request.headers.lookup (bytes "X-Storage-Key") = some P.secret

/-- A GET by the player; a page cannot set the headers of an upgrade. -/
structure Plays (request : HttpRequest) (u f : Bytes) : Prop where
  method : request.method = .GET
  path : request.path = (splitTarget (playbackTarget u f)).1
  fetch : isWsUpgrade request = false

/-- A request, of any method, for another recorded file. -/
def ForOther (request : HttpRequest) (u f : Bytes) : Prop :=
  ∃ u' f', validateUsername u' = none ∧ Recorded u' f' ∧ (u', f') ≠ (u, f) ∧
    request.path = (splitTarget (uploadTarget u' f')).1

def files (files : Files) (requests : List (FileOutcome × HttpRequest)) : Files :=
  Runs.run (fun files r => (P.serve files r.1 r.2).1) files requests

section
variable {P} {u f : Bytes} (hu : validateUsername u = none) (hf : Recorded u f)
include hu hf

theorem normalPath_recorded : normalPath (P.path u f) = normalPath P.baseDir ++ [u, f] :=
  P.normalPath_ordinary (ordinary_name hu) (ordinary_recorded hu hf)

theorem serve_upload (store : Files) (o : FileOutcome) {put : HttpRequest} (hput : P.Uploads put u f)
    (ho : Succeeds o put.body) :
    (∃ response, (P.serve store o put).2 = .queued (some 2) response ∧ response.statusCode = 200) ∧
      (P.serve store o put).1 = Function.update store (normalPath P.baseDir ++ [u, f]) (some put.body) := by
  have hr := routed_segment (ordinary_name hu) (ordinary_recorded hu hf) (hput.path.trans (splitTarget_uploadTarget hu hf))
    (by simp [isWsUpgrade, hput.method]) (by rw [hput.method]; rfl)
  have hk := checkPut_recorded hu hf P { put with pathParams := segmentParams u f } rfl hput.key
  have hp : P.putSegment store o { put with pathParams := segmentParams u f } =
      (Function.update store (normalPath P.baseDir ++ [u, f]) (some put.body), .ok (.ok (bytes "Stored"))) := by
    simp only [putSegment, hk, ho.creates, ho.opens, normalPath_recorded hu hf, List.take_of_length_le ho.room]
    rfl
  rw [P.serve_of_routed store o hr]
  simp only [handle, hp]
  refine ⟨⟨_, rfl, Cors.applyCorsHeaders_statusCode _ _ _⟩, ?_⟩
  rw [effect, hp]

theorem serve_play (store : Files) (o : FileOutcome) {get : HttpRequest} (hget : Plays get u f)
    (ho : Succeeds o []) {contents : Bytes} (hs : store (normalPath P.baseDir ++ [u, f]) = some contents) :
    ∃ response, (P.serve store o get).2 = .queued (some 1) response ∧ response.statusCode = 200 ∧
      response.body = contents := by
  have hpath : get.path = uploadTarget u f := by
    rw [hget.path, playbackTarget_eq hu, splitTarget_uploadTarget hu hf]
  have hr := routed_segment (ordinary_name hu) (ordinary_recorded hu hf) hpath hget.fetch (by rw [hget.method]; rfl)
  have hk := checkGet_recorded hu hf { get with pathParams := segmentParams u f } rfl
  rw [P.serve_of_routed store o hr]
  simp only [handle, getSegment, hk, HttpResponse.file, ho.opens, ho.reads, normalPath_recorded hu hf, hs]
  exact ⟨_, rfl, Cors.applyCorsHeaders_statusCode _ _ _, Cors.applyCorsHeaders_body _ _ _⟩

theorem serve_other (store : Files) (o : FileOutcome) {request : HttpRequest} (h : ForOther request u f) :
    (P.serve store o request).1 (normalPath P.baseDir ++ [u, f]) = store (normalPath P.baseDir ++ [u, f]) := by
  obtain ⟨u', f', hu', hf', hne, hp⟩ := h
  rw [← normalPath_recorded (P := P) hu hf]
  apply P.serve_frame
  intro a b hab he
  have hs := (P.accepts_checked hab).streamId
  have hn := (P.accepts_checked hab).filename
  have hm : (ZvejysServer.matchPattern segmentPattern request.path ∅).2 = segmentParams u' f' := by
    rw [hp, splitTarget_uploadTarget hu' hf',
      matchPattern_segment (segments_uploadTarget (ordinary_name hu') (ordinary_recorded hu' hf'))]
  simp only [hm, (lookup_segmentParams u' f').1, (lookup_segmentParams u' f').2, Option.some.injEq] at hs hn
  subst hs
  subst hn
  rw [normalPath_recorded hu' hf', normalPath_recorded hu hf] at he
  have := List.append_cancel_left he
  simp at this
  exact hne (Prod.ext this.1 this.2)

theorem files_others : ∀ (later : List (FileOutcome × HttpRequest)) (store : Files),
    (∀ r ∈ later, ForOther r.2 u f) →
      P.files store later (normalPath P.baseDir ++ [u, f]) = store (normalPath P.baseDir ++ [u, f])
  | [], _, _ => rfl
  | r :: later, store, h => by
    rw [files, Runs.run_cons]
    refine (files_others later _ fun r' hr' => h r' (List.mem_cons_of_mem _ hr')).trans ?_
    exact serve_other hu hf store r.1 (h r (List.mem_cons_self ..))

end

/-- **Upload and playback.** A PUT by the uploader reaches the PUT handler and
is stored as `BaseDir/u/f`; whatever requests for other recorded files follow,
the player's GET answers 200 with that body. -/
theorem playback {u f : Bytes} (hu : validateUsername u = none) (hf : Recorded u f) (store : Files)
    {put get : HttpRequest} (hput : P.Uploads put u f) (hget : Plays get u f) {o o' : FileOutcome}
    (ho : Succeeds o put.body) (ho' : Succeeds o' []) (later : List (FileOutcome × HttpRequest))
    (hlater : ∀ r ∈ later, ForOther r.2 u f) :
    (∃ response, (P.serve store o put).2 = .queued (some 2) response ∧ response.statusCode = 200) ∧
      (P.serve store o put).1 = Function.update store (normalPath P.baseDir ++ [u, f]) (some put.body) ∧
      P.files (P.serve store o put).1 later (normalPath P.baseDir ++ [u, f]) = some put.body ∧
      ∃ response, (P.serve (P.files (P.serve store o put).1 later) o' get).2 = .queued (some 1) response ∧
        response.statusCode = 200 ∧ response.body = put.body := by
  obtain ⟨hans, hstored⟩ := serve_upload hu hf store o hput ho
  have hkept : P.files (P.serve store o put).1 later (normalPath P.baseDir ++ [u, f]) = some put.body := by
    rw [files_others hu hf later _ hlater, hstored, Function.update_self]
  exact ⟨hans, hstored, hkept, serve_play hu hf _ o' hget ho' hkept⟩

/-- A segment of one stream, and a request for another stream's playlist before it is played. -/
theorem playback_alice :
    ∃ response, (pocket.serve (pocket.files (pocket.serve (fun _ => none) ⟨true, true, true, true, false, 4⟩ putAlice).1
        [(⟨true, true, true, true, false, 0⟩, getTarget (bytes "/api/segments/bobby/bobby.m3u8"))])
      ⟨true, true, true, true, false, 0⟩ (getTarget (bytes "/api/segments/alice/alice0.ts"))).2 =
        .queued (some 1) response ∧ response.statusCode = 200 ∧ response.body = bytes "abcd" := by
  have hu : validateUsername (bytes "alice") = none := by decide
  have hf : Recorded (bytes "alice") (bytes "alice0.ts") :=
    .segment (bytes "0") (by decide) (List.all_eq_true.mp rfl)
  refine (pocket.playback hu hf (fun _ => none) ⟨rfl, by decide, rfl⟩ ⟨rfl, by decide, rfl⟩ ⟨rfl, rfl, rfl, by decide⟩
    ⟨rfl, rfl, rfl, by decide⟩ _ ?_).2.2.2
  intro r hr
  cases List.mem_singleton.mp hr
  exact ⟨bytes "bobby", bytes "bobby.m3u8", by decide, .playlist, by decide, by decide⟩

end StreamPocket

end Ryklys

import Ryklys.Runs
import Ryklys.SegmentUploader
import Ryklys.StorageSound

/-!
# When a published playlist is complete

The uploader sends whatever a directory scan shows it, the segment that FFmpeg
has open included, and counts it as done; StreamPocket keeps what its disk takes
(`published_cut_short`). A run publishes complete segments only when no segment
is sent before it is finished, no playlist before its segments are taken, and
every body is stored whole (`published_complete`).
-/

namespace Ryklys

open Runs

namespace Recording

variable {u : UploadConfig} {s : Recording}

/-- Of the segments that the stored playlist lists, those that still exist
locally and are finished are stored with their final contents. -/
def Published (u : UploadConfig) (s : Recording) : Prop :=
  s.uploader.busy = false → ∀ text, s.files (u.storedPath u.m3u8Name) = some text → ∀ name ∈ listedIn text,
    ∀ contents, s.segments name = some contents → name ∈ s.finished → s.files (u.storedPath name) = some contents

/-- A segment is finished before any of it is sent or listed; a playlist is sent
when the finished segments that it lists and that still exist are taken; the disk
of StreamPocket takes the whole body. -/
def Safe (u : UploadConfig) (s : Recording) : RecordingOp → Prop
  | .finish _ => ∀ name ∈ s.writing, name ∉ s.taken ∧ name ∉ s.uploader.segment ∧
      (∀ text ∈ s.uploader.playlist, name ∉ listedIn text) ∧
      ∀ text ∈ s.files (u.storedPath u.m3u8Name), name ∉ listedIn text
  | .playlist =>
    s.uploader = .atPlaylist false ∨ s.uploader = .atPlaylist true → ∀ text ∈ s.playlist, ∀ name ∈ listedIn text,
      name ∈ s.finished → s.segments name ≠ none → name ∈ s.taken
  | .uploadEnds t => ∀ body ∈ s.uploader.body, t.reached = true → body.length ≤ t.outcome.room
  | _ => True

instance (u : UploadConfig) (s : Recording) (o : RecordingOp) : Decidable (s.Safe u o) := by
  unfold Safe
  split
  · infer_instance
  · exact instDecidableForall
  · infer_instance
  · infer_instance

/-- The segments of a playlist are taken, as far as they are finished and exist. -/
def Covered (s : Recording) (text : Bytes) : Prop :=
  ∀ name ∈ listedIn text, name ∈ s.finished → s.segments name ≠ none → name ∈ s.taken

structure Inv (u : UploadConfig) (s : Recording) : Prop where
  writing : ∀ name ∈ s.writing, name ∉ s.finished
  used : ∀ name, name ∈ s.writing ∨ name ∈ s.finished → name ∈ s.used
  ordinary : ∀ name ∈ s.taken, Ordinary name ∧ endsWith name (bytes ".ts") = true
  taken : ∀ name ∈ s.taken, name ∈ s.finished → ∀ contents, s.segments name = some contents →
    s.files (u.storedPath name) = some contents
  published : ∀ text, s.files (u.storedPath u.m3u8Name) = some text → s.Covered text
  uploading : ∀ last name body, s.uploader = .uploading last name body → endsWith name (bytes ".ts") = true ∧
    (name ∈ s.finished → ∀ contents, s.segments name = some contents → body = contents)
  playlisting : ∀ last text, s.uploader = .uploadingPlaylist last text → s.Covered text

theorem Inv.isPublished (h : Inv u s) : Published u s := by
  intro _ text ht name hm contents hc hf
  exact h.taken name (h.published text ht name hm hf (by rw [hc]; exact Option.some_ne_none _)) hf contents hc

/-! ## Names -/

theorem endsWith_iff {t suffix : Bytes} : endsWith t suffix = true ↔ suffix <:+ t := List.isSuffixOf_iff_suffix

theorem ne_m3u8Name {name : Bytes} (h : endsWith name (bytes ".ts") = true) : name ≠ u.m3u8Name := by
  intro he
  rw [endsWith_iff, he, UploadConfig.m3u8Name] at h
  obtain ⟨a, ha⟩ := h
  have hlast := congrArg List.getLast? ha
  rw [List.getLast?_append, List.getLast?_append] at hlast
  have hchar : some (115 : UInt8) = some 56 := hlast
  exact absurd hchar (by decide)

theorem ordinary_m3u8Name (h : isSafe u.streamId = true) : Ordinary u.m3u8Name := by
  have hlen : 5 ≤ u.m3u8Name.length := by
    rw [UploadConfig.m3u8Name, List.length_append]
    exact Nat.le_add_left 5 _
  refine ⟨?_, ?_, ?_, ?_⟩
  · intro he
    rw [he] at hlen
    cases hlen
  · intro he
    rw [he] at hlen
    exact absurd hlen (by decide)
  · intro he
    rw [he] at hlen
    exact absurd hlen (by decide)
  · intro hmem
    rcases List.mem_append.mp hmem with hmem | hmem
    · exact (isSafe_iff.mp h).2.2.1 hmem
    · exact absurd hmem (by decide)

theorem ordinary_ts {name : Bytes} (h : isSafe name = true) (hts : endsWith name (bytes ".ts") = true) :
    Ordinary name := by
  refine ordinary_of_isSafe h fun he => ?_
  rw [he] at hts
  cases hts

theorem storedPath_ne {name name' : Bytes} (h : Ordinary name) (h' : Ordinary name') (hne : name ≠ name') :
    u.storedPath name ≠ u.storedPath name' := by
  intro he
  have hpath : ∀ {f : Bytes}, Ordinary f →
      u.storedPath f = normalPath (u.pocket.baseDir ++ 47 :: u.streamId) ++ [f] :=
    fun hf => Paths.normal_ordinary _ hf
  rw [hpath h, hpath h'] at he
  exact hne (List.singleton_inj.mp (List.append_cancel_left he))

/-! ## A request -/

theorem checkPut_putRequest {filename contents s f : Bytes}
    (h : u.pocket.checkPut (u.putRequest filename contents) = .accepted s f) :
    s = u.streamId ∧ f = filename ∧ isSafe u.streamId = true ∧ isSafe filename = true := by
  obtain ⟨hs, hf, hsafe⟩ := u.pocket.checkPut_checked h
  have hstream : (u.putRequest filename contents).pathParams.lookup (bytes "streamId") = some u.streamId := by
    rw [UploadConfig.putRequest, StreamPocket.segmentParams, AList.lookup_insert_ne (by decide), AList.lookup_insert]
  have hname : (u.putRequest filename contents).pathParams.lookup (bytes "filename") = some filename :=
    AList.lookup_insert _
  rw [hstream, Option.some.injEq] at hs
  rw [hname, Option.some.injEq] at hf
  subst hs hf
  exact ⟨rfl, rfl, hsafe⟩

/-- A request leaves StreamPocket alone, or is stored under its name and answered 200. -/
theorem put_cases (u : UploadConfig) (files : Files) (filename contents : Bytes) (t : Transfer) :
    ((u.put files filename contents t).1 = files ∧ (u.put files filename contents t).2 = false) ∨
    (t.reached = true ∧ isSafe u.streamId = true ∧ isSafe filename = true ∧
      (u.put files filename contents t).1 =
        Function.update files (u.storedPath filename) (some (contents.take t.outcome.room)) ∧
      (u.put files filename contents t).2 = true) := by
  unfold UploadConfig.put
  by_cases hr : t.reached = true
  · rw [if_pos hr]
    unfold StreamPocket.putSegment
    cases hc : u.pocket.checkPut (u.putRequest filename contents) with
    | rejected answer =>
      refine .inl ⟨rfl, ?_⟩
      unfold StreamPocket.checkPut at hc
      repeat' split at hc
      all_goals cases hc
      all_goals rfl
    | accepted s f =>
      obtain ⟨rfl, rfl, hs, hf⟩ := checkPut_putRequest hc
      dsimp only
      split
      · exact .inl ⟨rfl, rfl⟩
      split
      · exact .inl ⟨rfl, rfl⟩
      · exact .inr ⟨hr, hs, hf, rfl, rfl⟩
  · rw [if_neg hr]
    exact .inl ⟨rfl, rfl⟩

/-! ## FFmpeg's steps -/

/-- A change of the directory that leaves the finished segments alone or deletes. -/
theorem inv_segments (h : Inv u s) {name : Bytes} {file : Option Bytes} {used : List Bytes} {writing : Option Bytes}
    (hname : name ∉ s.finished ∨ file = none) (hw : ∀ n ∈ writing, n ∉ s.finished)
    (hu : ∀ n, n ∈ writing ∨ n ∈ s.finished → n ∈ used) :
    Inv u { s with segments := Function.update s.segments name file, used, writing } := by
  have hseg : ∀ n ∈ s.finished, ∀ contents,
      Function.update s.segments name file n = some contents → s.segments n = some contents := by
    intro n hn contents hc
    by_cases he : n = name
    · rw [he, Function.update_self] at hc
      rcases hname with hname | hname
      · exact absurd (he ▸ hn) hname
      · rw [hname] at hc
        cases hc
    · rwa [Function.update_of_ne he] at hc
  have hcovered : ∀ text, s.Covered text →
      Covered { s with segments := Function.update s.segments name file, used, writing } text := by
    intro text ht n hn hf hne
    obtain ⟨contents, hc⟩ := Option.ne_none_iff_exists'.mp hne
    refine ht n hn hf ?_
    rw [hseg n hf contents hc]
    exact Option.some_ne_none _
  refine ⟨hw, hu, h.ordinary, ?_, fun text ht => hcovered text (h.published text ht), ?_,
    fun last text he => hcovered text (h.playlisting last text he)⟩
  · exact fun n hn hf contents hc => h.taken n hn hf contents (hseg n hf contents hc)
  · intro last n body he
    obtain ⟨hts, hb⟩ := h.uploading last n body he
    exact ⟨hts, fun hf contents hc => hb hf contents (hseg n hf contents hc)⟩

theorem inv_openNext (h : Inv u s) (name : Bytes) : Inv u (s.openNext name) := by
  refine or_stay h fun hc => ?_
  obtain ⟨-, hused, -⟩ := hc
  have hnot : name ∉ s.finished := fun hf => hused (h.used name (.inr hf))
  refine inv_segments h (.inl hnot) ?_ ?_
  · intro n hn
    rw [Option.mem_some_iff] at hn
    rwa [← hn]
  · intro n hn
    rcases hn with hn | hn
    · rw [Option.mem_some_iff] at hn
      rw [← hn]
      exact List.mem_append_right _ (List.mem_singleton_self _)
    · exact List.mem_append_left _ (h.used n (.inr hn))

theorem inv_append (h : Inv u s) (bs : Bytes) : Inv u (s.append bs) := by
  unfold append
  split
  · exact h
  · rename_i name hw
    exact inv_segments h (.inl (h.writing name hw)) h.writing h.used

theorem inv_delete (h : Inv u s) (name : Bytes) : Inv u (s.delete name) :=
  or_stay h fun _ => inv_segments h (.inr rfl) h.writing h.used

/-- A segment that nobody has sent or listed yet is finished. -/
theorem inv_finish (h : Inv u s) {text : Bytes} (ho : s.Safe u (.finish text)) : Inv u (s.finish text) := by
  unfold finish
  split
  · exact h
  rename_i name hw
  refine or_stay h fun _ => ?_
  obtain ⟨htaken, hsegment, hlist, hstored⟩ := ho name hw
  have hcovered : ∀ listing, name ∉ listedIn listing → s.Covered listing → Covered { s with
      writing := none
      finished := s.finished ++ [name]
      playlist := some text } listing := by
    intro listing hnot hl n hn hf hne
    rcases List.mem_append.mp hf with hf | hf
    · exact hl n hn hf hne
    · rw [List.mem_singleton.mp hf] at hn
      exact absurd hn hnot
  refine ⟨?_, ?_, h.ordinary, ?_, ?_, ?_, ?_⟩
  · intro n hn
    cases hn
  · intro n hn
    rcases hn with hn | hn
    · cases hn
    · rcases List.mem_append.mp hn with hn | hn
      · exact h.used n (.inr hn)
      · exact h.used n (.inl (List.mem_singleton.mp hn ▸ hw))
  · intro n hn hf contents hc
    rcases List.mem_append.mp hf with hf | hf
    · exact h.taken n hn hf contents hc
    · rw [List.mem_singleton.mp hf] at hn
      exact absurd hn htaken
  · exact fun listing hl => hcovered listing (hstored listing hl) (h.published listing hl)
  · intro last n body he
    obtain ⟨hts, hb⟩ := h.uploading last n body he
    refine ⟨hts, fun hf contents hc => ?_⟩
    rcases List.mem_append.mp hf with hf | hf
    · exact hb hf contents hc
    · refine absurd ?_ hsegment
      rw [show s.uploader = .uploading last n body from he, ← List.mem_singleton.mp hf]
      rfl
  · intro last listing he
    have hat : s.uploader = .uploadingPlaylist last listing := he
    refine hcovered listing (hlist listing ?_) (h.playlisting last listing he)
    rw [hat]
    rfl

/-! ## The uploader's steps -/

theorem inv_idle (h : Inv u s) {at_ : UploaderAt} (hb : at_.busy = false) : Inv u { s with uploader := at_ } := by
  refine ⟨h.writing, h.used, h.ordinary, h.taken, h.published, ?_, ?_⟩
  · intro last name body he
    rw [show at_ = .uploading last name body from he] at hb
    cases hb
  · intro last text he
    rw [show at_ = .uploadingPlaylist last text from he] at hb
    cases hb

theorem inv_entry (h : Inv u s) (name : Bytes) : Inv u (s.entry name) := by
  unfold entry
  split
  · refine or_stay h fun hc => ?_
    split
    · exact h
    · rename_i last _ contents hseg
      refine ⟨h.writing, h.used, h.ordinary, h.taken, h.published, ?_, ?_⟩
      · intro last' name' body he
        cases he
        refine ⟨hc.1, fun _ contents' hc' => ?_⟩
        rw [show s.segments name = some contents' from hc', Option.some.injEq] at hseg
        exact hseg.symm
      · intro last' text he
        cases he
  · exact h

theorem inv_scanEnds (h : Inv u s) : Inv u s.scanEnds := by
  unfold scanEnds
  split
  · exact inv_idle h rfl
  · exact h

theorem inv_sendPlaylist (h : Inv u s) (ho : s.Safe u .playlist) : Inv u s.sendPlaylist := by
  unfold sendPlaylist
  split
  · rename_i last hat
    split
    · exact inv_idle h (by cases last <;> rfl)
    · rename_i text hp
      have hor : s.uploader = .atPlaylist false ∨ s.uploader = .atPlaylist true := by
        rw [hat]
        cases last <;> simp
      refine ⟨h.writing, h.used, h.ordinary, h.taken, h.published, ?_, ?_⟩
      · intro last' name body he
        cases he
      · intro last' text' he
        cases he
        exact ho hor text hp
  · exact h

/-- A segment arrives whole. -/
theorem inv_takeSegment (h : Inv u s) {last : Bool} {name contents : Bytes}
    (hat : s.uploader = .uploading last name contents) (hstream : isSafe u.streamId = true) (hname : isSafe name = true)
    (uploaded : List Bytes) : Inv u { s with
      files := Function.update s.files (u.storedPath name) (some contents)
      taken := s.taken ++ [name]
      uploaded
      uploader := .scanning last } := by
  obtain ⟨hts, hfinal⟩ := h.uploading last name contents hat
  have hord := ordinary_ts hname hts
  have hne : u.storedPath u.m3u8Name ≠ u.storedPath name :=
    storedPath_ne (ordinary_m3u8Name hstream) hord (ne_m3u8Name hts).symm
  refine ⟨h.writing, h.used, ?_, ?_, ?_, ?_, ?_⟩
  · intro n hn
    rcases List.mem_append.mp hn with hn | hn
    · exact h.ordinary n hn
    · rw [List.mem_singleton.mp hn]
      exact ⟨hord, hts⟩
  · intro n hn hf c hc
    change Function.update s.files (u.storedPath name) _ (u.storedPath n) = _
    by_cases he : n = name
    · subst he
      rw [Function.update_self, hfinal hf c hc]
    · have hn : n ∈ s.taken := (List.mem_append.mp hn).resolve_right fun hm => he (List.mem_singleton.mp hm)
      rw [Function.update_of_ne (storedPath_ne (h.ordinary n hn).1 hord he)]
      exact h.taken n hn hf c hc
  · intro text ht n hn hf hex
    change Function.update s.files (u.storedPath name) _ (u.storedPath u.m3u8Name) = _ at ht
    rw [Function.update_of_ne hne] at ht
    exact List.mem_append_left _ (h.published text ht n hn hf hex)
  · intro last' n body he
    cases he
  · intro last' text he
    cases he

/-- A playlist arrives whole. -/
theorem inv_takePlaylist (h : Inv u s) {last : Bool} {text : Bytes} (hat : s.uploader = .uploadingPlaylist last text)
    (hstream : isSafe u.streamId = true) : Inv u { s with
      files := Function.update s.files (u.storedPath u.m3u8Name) (some text)
      uploader := afterPlaylist last } := by
  have hidle : ∀ {last}, (afterPlaylist last).busy = false := fun {last} => by cases last <;> rfl
  refine inv_idle (s := { s with files := Function.update s.files (u.storedPath u.m3u8Name) (some text) }) ?_ hidle
  refine ⟨h.writing, h.used, h.ordinary, ?_, ?_, h.uploading, h.playlisting⟩
  · intro n hn hf c hc
    obtain ⟨hord, hts⟩ := h.ordinary n hn
    change Function.update s.files (u.storedPath u.m3u8Name) _ (u.storedPath n) = _
    rw [Function.update_of_ne (storedPath_ne hord (ordinary_m3u8Name hstream) (ne_m3u8Name hts))]
    exact h.taken n hn hf c hc
  · intro text' ht
    change Function.update s.files (u.storedPath u.m3u8Name) _ (u.storedPath u.m3u8Name) = _ at ht
    rw [Function.update_self, Option.some.injEq] at ht
    exact ht ▸ h.playlisting last text hat

theorem inv_uploadEnds (h : Inv u s) {t : Transfer} (ho : s.Safe u (.uploadEnds t)) : Inv u (s.uploadEnds u t) := by
  unfold uploadEnds
  split
  · rename_i last name contents hat
    have hidle : ∀ uploaded, Inv u { s with uploaded, uploader := .scanning last } := by
      intro uploaded
      have h' : Inv u { s with uploader := .scanning last } := inv_idle h rfl
      exact ⟨h'.writing, h'.used, h'.ordinary, h'.taken, h'.published, h'.uploading, h'.playlisting⟩
    rcases put_cases u s.files name contents t with ⟨hfiles, hanswer⟩ | ⟨hr, hstream, hname, hfiles, hanswer⟩
    · simp only [hfiles, hanswer, Bool.false_eq_true, if_false]
      exact hidle _
    · have hwhole : contents.take t.outcome.room = contents :=
        List.take_of_length_le (ho contents (by rw [hat]; rfl) hr)
      simp only [hfiles, hanswer, hwhole, if_true]
      exact inv_takeSegment h hat hstream hname _
  · rename_i last text hat
    rcases put_cases u s.files u.m3u8Name text t with ⟨hfiles, -⟩ | ⟨hr, hstream, -, hfiles, -⟩
    · simp only [hfiles]
      exact inv_idle h (by cases last <;> rfl)
    · have hwhole : text.take t.outcome.room = text := List.take_of_length_le (ho text (by rw [hat]; rfl) hr)
      simp only [hfiles, hwhole]
      exact inv_takePlaylist h hat hstream
  · exact h

theorem inv_step {o : RecordingOp} (h : Inv u s) (ho : s.Safe u o) : Inv u (s.step u o) := by
  cases o with
  | openNext name => exact inv_openNext h name
  | append bs => exact inv_append h bs
  | finish text => exact inv_finish h ho
  | delete name => exact inv_delete h name
  | wake live => exact or_stay h fun _ => inv_idle h rfl
  | entry name => exact inv_entry h name
  | scanEnds => exact inv_scanEnds h
  | playlist => exact inv_sendPlaylist h ho
  | uploadEnds t => exact inv_uploadEnds h ho

/-- Nothing is finished at the start, so nothing left over counts. -/
theorem inv_start (u : UploadConfig) (segments : Bytes → Option Bytes) (playlist : Option Bytes) (files : Files) :
    Inv u (start segments playlist files) := by
  refine ⟨?_, ?_, ?_, ?_, ?_, ?_, ?_⟩
  · intro name hn
    cases hn
  · intro name hn
    rcases hn with hn | hn <;> cases hn
  · intro name hn
    cases hn
  · intro name hn
    cases hn
  · intro text _ name _ hf
    cases hf
  · intro last name body he
    cases he
  · intro last text he
    cases he

/-- **Complete segments only**, in a run of safe steps, whatever earlier sessions
have left behind. -/
theorem published_complete {u : UploadConfig} {segments : Bytes → Option Bytes} {playlist : Option Bytes}
    {files : Files} {ops : List RecordingOp}
    (h : EachStep (step u) (Safe u) (start segments playlist files) ops) :
    Always (step u) (Published u) (start segments playlist files) ops := by
  apply always_of_inv (step u) ?_ (inv_start u segments playlist files) (fun _ => Inv.isPublished) h
  intro s o hs ho
  exact inv_step hs ho

def annaUploads : UploadConfig where
  streamId := bytes "anna"
  secret := bytes "key"
  pocket := { baseDir := bytes "/data", secret := bytes "key", cors := {} }

def stored : Transfer := ⟨true, ⟨true, true, true, true, false, 100⟩, true⟩

/-- A second session, with the segment of the first still on StreamPocket; its own
segment has another name. -/
theorem published_complete_one :
    Always (step annaUploads) (Published annaUploads)
      (start (fun _ => none) none (Function.update
        (Function.update (fun _ => none) (annaUploads.storedPath (bytes "anna0.ts")) (some [9]))
        (annaUploads.storedPath (bytes "anna.m3u8")) (some (bytes "#EXTM3U\nanna0.ts\n"))))
      [.openNext (bytes "anna1.ts"), .append [1], .finish (bytes "#EXTM3U\nanna1.ts\n"), .wake true,
        .entry (bytes "anna1.ts"), .uploadEnds stored, .scanEnds, .playlist, .uploadEnds stored] :=
  published_complete (by decide)

/-- FFmpeg goes on with a segment after its upload, and the playlist lists it; the
disk of StreamPocket is full; a second session opens the name of a segment that
the playlist of the first still lists. -/
theorem published_cut_short :
    ¬ Published annaUploads (run (step annaUploads) (start (fun _ => none) none fun _ => none)
      [.openNext (bytes "anna0.ts"), .append [1], .wake true, .entry (bytes "anna0.ts"), .uploadEnds stored,
        .append [2], .finish (bytes "#EXTM3U\nanna0.ts\n"), .scanEnds, .playlist, .uploadEnds stored]) ∧
    ¬ Published annaUploads (run (step annaUploads) (start (fun _ => none) none fun _ => none)
      [.openNext (bytes "anna0.ts"), .append [1, 2], .finish (bytes "#EXTM3U\nanna0.ts\n"), .wake true,
        .entry (bytes "anna0.ts"), .uploadEnds ⟨true, ⟨true, true, true, true, false, 1⟩, true⟩, .scanEnds, .playlist,
        .uploadEnds stored]) ∧
    ¬ Published annaUploads (run (step annaUploads) (start (fun _ => none) none (Function.update
        (Function.update (fun _ => none) (annaUploads.storedPath (bytes "anna0.ts")) (some [9]))
        (annaUploads.storedPath (bytes "anna.m3u8")) (some (bytes "#EXTM3U\nanna0.ts\n"))))
      [.openNext (bytes "anna0.ts"), .append [1], .finish (bytes "#EXTM3U\nanna0.ts\n")]) := by
  have hcut : ∀ {s : Recording} (text contents : Bytes), s.uploader.busy = false →
      s.files (annaUploads.storedPath annaUploads.m3u8Name) = some text → bytes "anna0.ts" ∈ listedIn text →
      s.segments (bytes "anna0.ts") = some contents → bytes "anna0.ts" ∈ s.finished →
      s.files (annaUploads.storedPath (bytes "anna0.ts")) ≠ some contents → ¬ Published annaUploads s :=
    fun text contents hb ht hl hc hf hne h => hne (h hb text ht _ hl contents hc hf)
  have hlists : bytes "anna0.ts" ∈ listedIn (bytes "#EXTM3U\nanna0.ts\n") := by decide
  refine ⟨?_, ?_, ?_⟩
  · exact hcut _ [1, 2] (by decide) (by decide) hlists (by decide) (by decide) (by decide)
  · exact hcut _ [1, 2] (by decide) (by decide) hlists (by decide) (by decide) (by decide)
  · exact hcut _ [1] (by decide) (by decide) hlists (by decide) (by decide) (by decide)

end Recording

end Ryklys

import Ryklys.StreamerMediaSound

/-!
# The command line of FFmpeg

`popen` gives the command to a shell, with the username of the streamer in it.
The names that `ValidateUsername` accepts leave nothing for the shell to do but
to split the words, and add no word.
-/

namespace Ryklys.StreamerMedia

open Runs validation

/-- A character without a meaning to the shell, other than to part two words. -/
def isInert (c : UInt8) : Bool := isAlnum c || decide (c ∈ bytes " _-./:,+")

/-- The session of a streamer: `outputDirectory` and `outputFormat` are never set. -/
def userMedia (username : Bytes) (socketFd udpPort : UdpSocket → Int) : MediaConfig :=
  { streamId := username, socketFd, udpPort }

/-- What FFmpeg is to be called with. -/
def argv (username : Bytes) : List Bytes :=
  ffmpegInput.splitOn 32 ++ [bytes "/tmp/" ++ username ++ bytes ".sdp"] ++ ffmpegOutput.splitOn 32 ++
    [bytes "./recordings/" ++ username ++ bytes "/" ++ username ++ bytes ".m3u8"]

section
variable {username : Bytes} {socketFd udpPort : UdpSocket → Int}

theorem ffmpegCmd_eq : (userMedia username socketFd udpPort).ffmpegCmd =
    ffmpegInput ++ 32 :: (bytes "/tmp/" ++ username ++ bytes ".sdp" ++ 32 ::
      (ffmpegOutput ++ 32 :: (bytes "./recordings/" ++ username ++ bytes "/" ++ username ++ bytes ".m3u8"))) := by
  rw [MediaConfig.ffmpegCmd, show bytes " " = [32] from rfl]
  simp only [MediaConfig.sdpFilename, MediaConfig.outputPath, userMedia, List.append_assoc, List.cons_append,
    List.nil_append]
  rfl

theorem no_blank (hu : validateUsername username = none) : 32 ∉ username := fun h =>
  absurd (nameChars_of_valid hu 32 h) (by decide)

theorem splitOn_ffmpegCmd (hu : validateUsername username = none) :
    (userMedia username socketFd udpPort).ffmpegCmd.splitOn 32 = argv username := by
  have hsdp : 32 ∉ bytes "/tmp/" ++ username ++ bytes ".sdp" := by
    simp only [List.mem_append, not_or]
    exact ⟨⟨by decide, no_blank hu⟩, by decide⟩
  have hout : 32 ∉ bytes "./recordings/" ++ username ++ bytes "/" ++ username ++ bytes ".m3u8" := by
    simp only [List.mem_append, not_or]
    exact ⟨⟨⟨⟨by decide, no_blank hu⟩, by decide⟩, no_blank hu⟩, by decide⟩
  rw [ffmpegCmd_eq, List.splitOn_append_cons_self, List.splitOn_append_cons_self_of_not_mem hsdp,
    List.splitOn_append_cons_self, List.splitOn_eq_singleton hout, argv]
  simp only [List.append_assoc, List.nil_append, List.cons_append]

theorem inert_args : (∀ b ∈ ffmpegInput, isInert b = true) ∧ ∀ b ∈ ffmpegOutput, isInert b = true :=
  ⟨List.all_eq_true.mp (by decide +kernel), List.all_eq_true.mp (by decide +kernel)⟩

theorem inert_ffmpegCmd (hu : validateUsername username = none) :
    ∀ b ∈ (userMedia username socketFd udpPort).ffmpegCmd, isInert b = true := by
  have hname : ∀ b ∈ username, isInert b = true := by
    intro b hb
    have hc := nameChars_of_valid hu b hb
    simp only [isNameChar, Bool.or_eq_true, beq_iff_eq] at hc
    rcases hc with (hc | rfl) | rfl
    · rw [isInert, hc]
      rfl
    · decide
    · decide
  rw [ffmpegCmd_eq]
  simp only [List.forall_mem_append, List.forall_mem_cons]
  exact ⟨inert_args.1, by decide, ⟨⟨List.all_eq_true.mp (by decide), hname⟩, List.all_eq_true.mp (by decide)⟩,
    by decide, inert_args.2, by decide, ⟨⟨⟨List.all_eq_true.mp (by decide), hname⟩, List.all_eq_true.mp (by decide)⟩,
      hname⟩, List.all_eq_true.mp (by decide)⟩

/-- **No username changes the command.** FFmpeg gets these arguments, in every
session of a user whose name was accepted, and among them the file that was
written for it. -/
theorem popen_argv (hu : validateUsername username = none) {ops : List MediaOp}
    (ho : EachStep (step (userMedia username socketFd udpPort)) Counted {} ops) :
    (∀ command spawned, .popen command spawned ∈ (run (step (userMedia username socketFd udpPort)) {} ops).log →
      (∀ b ∈ command, isInert b = true) ∧ command.splitOn 32 = argv username) ∧
    ∀ filename content, .sdpFile filename content ∈ (run (step (userMedia username socketFd udpPort)) {} ops).log →
      (argv username)[(ffmpegInput.splitOn 32).length]? = some filename := by
  have hs := sound_run _ ho
  constructor
  · intro command spawned hmem
    obtain ⟨spawned', pt, hin⟩ := hs.process_mem hmem rfl
    obtain rfl : command = (userMedia username socketFd udpPort).ffmpegCmd := by
      simp [Ffmpeg.startup] at hin
      exact hin.1
    exact ⟨inert_ffmpegCmd hu, splitOn_ffmpegCmd hu⟩
  · intro filename content hmem
    obtain ⟨spawned', pt, hin⟩ := hs.process_mem hmem rfl
    obtain rfl : filename = (userMedia username socketFd udpPort).sdpFilename := by
      simp [Ffmpeg.startup] at hin
      exact hin.1
    rw [argv, List.append_assoc, List.append_assoc, List.getElem?_append_right (Nat.le_refl _), Nat.sub_self]
    rfl

end

theorem popen_argv_bob : argv (bytes "bob") =
    (userMedia (bytes "bob") (fun _ => 5) fun _ => 5004).ffmpegCmd.splitOn 32 :=
  ((popen_argv (by decide)
    (show EachStep (step (userMedia (bytes "bob") (fun _ => 5) fun _ => 5004)) Counted {} bobOps by decide)).1 _ true
    (.tail _ (.tail _ (.head _)))).2.symm

end Ryklys.StreamerMedia

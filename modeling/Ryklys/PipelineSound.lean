import Ryklys.FramingSound
import Ryklys.SelfDelimiting

/-!
# Keep-alive and pipelining

Well-formed requests are self-delimiting for the framing (`requestCodec`), and
`OnReadable` is a reader that takes at most one of them off the buffer in each
call. So requests stay behind in the buffer exactly when one batch of received
bytes completes two of them (`pipeline_served_iff`).
-/

namespace Ryklys

open Search Runs SelfDelimiting

/-! ## Well-formed requests -/

/-- `Content-Length: k` is one line of the section after the request line, and
its name is spelled nowhere else; or there is no such line and `k` is 0. -/
def AnnouncesLength (headerSection : Bytes) (k : Nat) : Prop :=
  (∃ pre post, headerSection = pre ++ crlf ++ bytes "Content-Length: " ++ Numeral.ofNat k ++ post ∧
    (post = [] ∨ crlf <+: post) ∧
    find (bytes "Content-Length:") headerSection = some (pre.length + 2) ∧
    find (bytes "Content-Length:") post = none) ∨
  (find (bytes "Content-Length:") headerSection = none ∧ find (bytes "content-length:") headerSection = none ∧ k = 0)

/-- A complete request that is no upgrade, as a client sends it. -/
structure PlainRequest (X : Externals) where
  header : Bytes
  body : Bytes
  -- the section ends at the first CRLFCRLF
  terminated : find crlfcrlf (header ++ crlfcrlf) = some header.length
  known : KnownMethod header
  announces : AnnouncesLength header body.length
  fits : (header ++ crlfcrlf ++ body).length < sizeMod
  plain : ∀ request, parse X (header ++ crlfcrlf ++ body) = .ok request → isWsUpgrade request = false

theorem head?_ofNat (n : Nat) (t : Bytes) : ∃ c, (Numeral.ofNat n ++ t).head? = some c ∧ Numeral.isDigit c = true := by
  obtain ⟨c, s, hs⟩ := List.exists_cons_of_ne_nil (Numeral.ofNat_ne_nil n)
  exact ⟨c, by simp [hs], Numeral.isDigit_ofNat n c (by simp [hs])⟩

theorem isBlank_of_isDigit {c : UInt8} (h : Numeral.isDigit c = true) : isBlank c = false := by
  simp only [isBlank, Bool.or_eq_false_iff, beq_eq_false_iff_ne]
  constructor <;> (intro he; rw [he] at h; cases h)

theorem announces_spec {H : Bytes} {k : Nat} (h : AnnouncesLength H k) (hk : k < sizeMod) :
    ¬ BlankLength H ∧ announced H = k := by
  rcases h with ⟨pre, post, hH, hpost, hfind, -⟩ | ⟨h1, h2, rfl⟩
  · obtain ⟨c, hc, hd⟩ := head?_ofNat k post
    have hclPos : clPos H = some (pre.length + 2) := by rw [clPos, hfind]; rfl
    have htext : afterName H = some (32 :: (Numeral.ofNat k ++ post)) := by
      rw [afterName, hclPos, Option.map_some, Option.some.injEq, hH]
      rw [show pre ++ crlf ++ bytes "Content-Length: " ++ Numeral.ofNat k ++ post =
          (pre ++ crlf ++ bytes "Content-Length:") ++ (32 :: (Numeral.ofNat k ++ post)) by
        simp only [List.append_assoc]; rfl]
      rw [List.drop_left' (by simp [crlf_length]; rfl)]
    constructor
    · rintro ⟨text, ht, hall⟩
      rw [htext, Option.mem_some] at ht
      subst ht
      have := hall c (List.mem_cons_of_mem _ (List.mem_of_mem_head? hc))
      rw [isBlank_of_isDigit hd] at this
      cases this
    · have hskip : (32 :: (Numeral.ofNat k ++ post)).dropWhile isBlank = Numeral.ofNat k ++ post := by
        rw [List.dropWhile_cons_of_pos (by decide)]
        cases hs : Numeral.ofNat k ++ post with
        | nil => rfl
        | cons b s =>
          rw [hs] at hc
          cases hc
          rw [List.dropWhile_cons_of_neg (by simp [isBlank_of_isDigit hd])]
      have hread : Numeral.readNat (Numeral.ofNat k ++ post) = some k := by
        refine Numeral.readNat_ofNat k fun b hb => ?_
        rcases hpost with rfl | ⟨t, rfl⟩
        · cases hb
        · cases hb; decide
      simp only [announced, htext, hskip, fromChars, hread, if_pos hk]
  · have : afterName H = none := by simp [afterName, clPos, h1, h2]
    refine ⟨?_, by simp [announced, this]⟩
    rintro ⟨text, ht, -⟩
    simp [this] at ht

namespace PlainRequest

variable {X : Externals} (r : PlainRequest X)

def text : Bytes := r.header ++ crlfcrlf ++ r.body

theorem find_text (t : Bytes) : find crlfcrlf (r.text ++ t) = some r.header.length := by
  rw [text, List.append_assoc]
  exact find_append r.terminated _

theorem length_text : r.text.length = r.header.length + 4 + r.body.length := by
  simp [text, crlfcrlf_length, Nat.add_assoc]

theorem take_header (t : Bytes) : (r.text ++ t).take r.header.length = r.header := by
  rw [text, List.append_assoc, List.append_assoc, List.take_left]

theorem requestSize_header : requestSize r.header = r.text.length := by
  have hf := r.fits
  have hlen := r.length_text
  rw [show r.header ++ crlfcrlf ++ r.body = r.text from rfl, hlen] at hf
  rw [requestSize, (announces_spec r.announces (by omega)).2, Nat.mod_eq_of_lt hf, hlen]

theorem not_blank : ¬ BlankLength r.header := by
  have hf := r.fits
  rw [show r.header ++ crlfcrlf ++ r.body = r.text from rfl, r.length_text] at hf
  exact (announces_spec r.announces (by omega)).1

theorem cutRequest_text (t : Bytes) : cutRequest (r.text ++ t) = .ok (some (r.text, t)) := by
  rw [cutRequest_eq (r.find_text t), r.take_header, r.requestSize_header, if_neg r.not_blank, if_neg (by simp),
    List.take_left, List.drop_left]

theorem cutRequest_short {n : Nat} (hn : n < r.text.length) : cutRequest (r.text.take n) = .ok none := by
  have hfind := r.find_text []
  rw [List.append_nil] at hfind
  rcases Nat.lt_or_ge n (r.header.length + 4) with hlt | hge
  · exact cutRequest_none (find_take_lt hfind hlt)
  · have htake : (r.text.take n).take r.header.length = r.header := by
      have := r.take_header []
      rw [List.append_nil] at this
      rw [List.take_take, Nat.min_eq_left (by omega), this]
    rw [cutRequest_eq (find_take hfind hge), htake, r.requestSize_header, if_neg r.not_blank,
      if_pos (by rw [List.length_take]; omega)]

theorem parse_text : ∃ request, parse X r.text = .ok request := by
  have hfind := r.find_text []
  have htake := r.take_header []
  rw [List.append_nil] at hfind htake
  rw [parse_of_find X hfind, htake]
  exact readRequest_of_known X _ r.known

end PlainRequest

/-! ## The framing as a decoder -/

def cutDec (buf : Bytes) : Option (Bytes × Nat) :=
  match cutRequest buf with
  | .ok (some (completeRequest, _)) => some (completeRequest, completeRequest.length)
  | _ => none

def requestCodec (X : Externals) : Codec UInt8 Bytes (PlainRequest X) where
  enc := PlainRequest.text
  out := PlainRequest.text
  dec := cutDec
  enc_ne_nil r h := by have := r.length_text; rw [h, List.length_nil] at this; omega
  dec_nil := rfl
  dec_enc r t := by rw [cutDec, r.cutRequest_text]
  dec_short r n hn := by rw [cutDec, r.cutRequest_short hn]

theorem cutRequest_split {buf completeRequest rest : Bytes} (h : cutRequest buf = .ok (some (completeRequest, rest))) :
    rest = buf.drop completeRequest.length := by
  cases hf : find crlfcrlf buf with
  | none => rw [cutRequest_none hf] at h; cases h
  | some headerEnd =>
    rw [cutRequest_eq hf] at h
    split at h
    · cases h
    split at h
    · cases h
    cases h
    rw [List.length_take, Nat.min_eq_left (by omega)]

/-- The part of a connection the abstract reader keeps, requests unparsed. -/
def Simulates (X : Externals) (c : HttpConnection) (s : List Bytes × Bytes) : Prop :=
  c.readBuffer = s.2 ∧ c.handled.map Except.ok = s.1.map (parse X)

/-- **Refinement.** A call that drains a batch is one step of the reader that
decodes a single item, as long as what it decodes parses. -/
theorem readStep_simulates (X : Externals) (S : ZvejysServer) {c : HttpConnection} {s : List Bytes × Bytes}
    (h : Simulates X c s) (batch : List Bytes)
    (hp : ∀ text ∈ (feed cutDec (fun _ => 1) s batch.flatten).1, ∃ request, parse X text = .ok request) :
    Simulates X (c.readStep X S ⟨batch, .eagain⟩) (feed cutDec (fun _ => 1) s batch.flatten) := by
  obtain ⟨hb, hh⟩ := h
  unfold HttpConnection.readStep
  rw [onReadable_eagain, hb]
  simp only [feed, extract, cutDec] at hp ⊢
  cases hc : cutRequest (s.2 ++ batch.flatten) with
  | error e => exact ⟨rfl, by simpa using hh⟩
  | ok r =>
    cases r with
    | none => exact ⟨rfl, by simpa using hh⟩
    | some p =>
      obtain ⟨completeRequest, rest⟩ := p
      simp only [hc] at hp ⊢
      obtain ⟨request, hr⟩ := hp completeRequest (by simp)
      rw [hr]
      refine ⟨?_, ?_⟩
      · simpa using cutRequest_split hc
      · simp [hh, hr]

/-! ## Runs -/

def afterBatches (X : Externals) (S : ZvejysServer) (batches : List (List Bytes)) : HttpConnection :=
  run (HttpConnection.readStep X S) {} (batches.map fun batch => ⟨batch, .eagain⟩)

def received (batches : List (List Bytes)) : Bytes := (batches.map List.flatten).flatten

section
variable {X : Externals} (S : ZvejysServer) {rs : List (PlainRequest X)}

theorem afterBatches_simulates : ∀ {batches : List (List Bytes)}, received batches <+: (requestCodec X).stream rs →
    Simulates X (afterBatches X S batches)
      ((batches.map List.flatten).foldl (feed cutDec fun _ => 1) ([], [])) := by
  intro batches
  induction batches using List.reverseRecOn with
  | nil => intro _; exact ⟨rfl, rfl⟩
  | append_singleton batches batch ih =>
    intro hs
    have hs' := hs
    rw [received, List.map_append, List.flatten_append] at hs'
    have h := ih ((List.prefix_append _ _).trans hs')
    rw [afterBatches, List.map_append, List.map_singleton, run_snoc, List.map_append, List.map_singleton,
      List.foldl_append, List.foldl_cons, List.foldl_nil]
    refine readStep_simulates X S h batch fun text ht => ?_
    obtain ⟨n, -, hn⟩ := (requestCodec X).feed_once_after
      (show ((batches ++ [batch]).map List.flatten).flatten <+: _ from hs)
    rw [List.map_append, List.map_singleton, List.foldl_append, List.foldl_cons, List.foldl_nil] at hn
    rw [show feed cutDec = feed (requestCodec X).dec from rfl, hn] at ht
    obtain ⟨r, -, rfl⟩ := List.mem_map.mp ht
    exact r.parse_text

/-- What pipelining asks of one cut of the stream: all requests are handed over
in order, the buffer ends empty, and no complete request waits in the buffer
between two calls. -/
def PipelineServed (rs : List (PlainRequest X)) (batches : List (List Bytes)) : Prop :=
  ((afterBatches X S batches).handled.map Except.ok = rs.map (fun r => parse X r.text) ∧
    (afterBatches X S batches).readBuffer = []) ∧
  ∀ pre, pre <+: batches → ¬ ∃ (r : PlainRequest X) (t : Bytes), (afterBatches X S pre).readBuffer = r.text ++ t

/-- No batch holds the last bytes of two requests. -/
def OneEndPerBatch (rs : List (PlainRequest X)) (batches : List (List Bytes)) : Prop :=
  ∀ pre batch, pre ++ [batch] <+: batches →
    (requestCodec X).completed rs (received (pre ++ [batch])).length ≤
      (requestCodec X).completed rs (received pre).length + 1

theorem oneEndPerBatch_iff {rs : List (PlainRequest X)} {batches : List (List Bytes)} : OneEndPerBatch rs batches ↔
    ∀ i < batches.length, (requestCodec X).completed rs (received (batches.take (i + 1))).length ≤
      (requestCodec X).completed rs (received (batches.take i)).length + 1 := by
  constructor
  · intro h i hi
    have hsplit : batches.take (i + 1) = batches.take i ++ [batches[i]] := (List.take_append_getElem hi).symm
    have hone := h (batches.take i) batches[i] (hsplit ▸ List.take_prefix _ _)
    rwa [← hsplit] at hone
  · intro h pre batch hp
    have hlen := hp.length_le
    rw [List.length_append, List.length_singleton] at hlen
    have hone := h pre.length (by omega)
    have htake : batches.take (pre.length + 1) = pre ++ [batch] := by
      have := List.prefix_iff_eq_take.mp hp
      rw [List.length_append, List.length_singleton] at this
      exact this.symm
    have hpre : batches.take pre.length = pre :=
      (List.prefix_iff_eq_take.mp ((List.prefix_append pre [batch]).trans hp)).symm
    rwa [htake, hpre] at hone

instance (rs : List (PlainRequest X)) (batches : List (List Bytes)) : Decidable (OneEndPerBatch rs batches) :=
  decidable_of_iff _ oneEndPerBatch_iff.symm

theorem prefix_map {α β : Type} {f : α → β} {cs : List β} {l : List α} (h : cs <+: l.map f) :
    ∃ pre, pre <+: l ∧ cs = pre.map f := by
  rw [List.prefix_iff_eq_take, ← List.map_take] at h
  exact ⟨_, List.take_prefix _ _, h⟩

theorem not_waiting_iff {pre : List (List Bytes)} (hs : received pre <+: (requestCodec X).stream rs) :
    (¬ ∃ (r : PlainRequest X) (t : Bytes), (afterBatches X S pre).readBuffer = r.text ++ t) ↔
      (pre.map List.flatten).foldl (feed cutDec fun _ => 1) ([], []) =
        (requestCodec X).after rs ((requestCodec X).completed rs (received pre).length) (received pre) := by
  obtain ⟨n, hn, he⟩ : ∃ n ≤ (requestCodec X).completed rs (received pre).length,
      (pre.map List.flatten).foldl (feed (requestCodec X).dec fun _ => 1) ([], []) =
        (requestCodec X).after rs n (received pre) := (requestCodec X).feed_once_after hs
  have hsim := (afterBatches_simulates S hs).1
  rw [show feed cutDec = feed (requestCodec X).dec from rfl] at hsim ⊢
  rw [he] at hsim ⊢
  rw [hsim, show (∃ (r : PlainRequest X) (t : Bytes), _ = r.text ++ t) ↔ n < _ from (requestCodec X).waiting_iff hs hn,
    Nat.not_lt]
  constructor
  · intro hle
    rw [Nat.le_antisymm hn hle]
  · intro h
    rw [(requestCodec X).after_inj (Nat.le_trans hn ((requestCodec X).completed_le_length _ _))
      ((requestCodec X).completed_le_length _ _) h]

theorem served_of_keeping_up {batches : List (List Bytes)} (hcut : received batches = (requestCodec X).stream rs)
    (h : (batches.map List.flatten).foldl (feed cutDec fun _ => 1) ([], []) =
      (requestCodec X).after rs ((requestCodec X).completed rs (received batches).length) (received batches)) :
    (afterBatches X S batches).handled.map Except.ok = rs.map (fun r => parse X r.text) ∧
      (afterBatches X S batches).readBuffer = [] := by
  have hs : received batches <+: (requestCodec X).stream rs := by rw [hcut]
  obtain ⟨hb, hh⟩ := afterBatches_simulates S hs
  rw [h, hcut, Codec.completed_stream] at hb hh
  simp only [Codec.after, List.take_length] at hb hh
  refine ⟨by rw [hh, List.map_map]; rfl, by rw [hb, List.drop_length]⟩

/-- **Pipelining.** However the stream of requests is cut, it is served exactly
when no batch completes two requests. -/
theorem pipeline_served_iff {batches : List (List Bytes)}
    (hcut : received batches = (rs.map PlainRequest.text).flatten) :
    PipelineServed S rs batches ↔ OneEndPerBatch rs batches := by
  have hs : (batches.map List.flatten).flatten <+: (requestCodec X).stream rs := by
    rw [show (batches.map List.flatten).flatten = (requestCodec X).stream rs from hcut]
  have hpre : ∀ {pre}, pre <+: batches → received pre <+: (requestCodec X).stream rs := by
    intro pre ⟨post, he⟩
    subst he
    rw [List.map_append, List.flatten_append] at hs
    exact (List.prefix_append _ _).trans hs
  have honce := (requestCodec X).once_iff hs
  -- both sides say that the reader has decoded all it could after every batch
  constructor
  · intro ⟨_, hwait⟩ pre batch hp
    have hkeep := honce.mp fun cs hcs => by
      obtain ⟨pre, hpre', rfl⟩ := prefix_map hcs
      exact (not_waiting_iff S (hpre hpre')).mp (hwait pre hpre')
    have := hkeep (pre.map List.flatten) batch.flatten (by
      have := hp.map List.flatten
      rwa [List.map_append, List.map_singleton] at this)
    simpa [received] using this
  · intro hone
    have hkeep := honce.mpr fun cs c hcs => by
      obtain ⟨pre', hpre', he⟩ := prefix_map hcs
      obtain ⟨pre, batch, rfl, rfl, rfl⟩ : ∃ pre batch, pre' = pre ++ [batch] ∧ cs = pre.map List.flatten ∧
          c = batch.flatten := by
        rcases List.eq_nil_or_concat pre' with rfl | ⟨pre, batch, rfl⟩
        · simp at he
        · rw [List.concat_eq_append, List.map_append, List.map_singleton] at he
          obtain ⟨h1, h2⟩ := List.append_inj' he rfl
          exact ⟨pre, batch, List.concat_eq_append, h1, List.singleton_inj.mp h2⟩
      have := hone pre batch hpre'
      simpa [received] using this
    refine ⟨served_of_keeping_up S hcut (hkeep _ (List.prefix_refl _)), fun pre hp => ?_⟩
    exact (not_waiting_iff S (hpre hp)).mpr (hkeep _ (hp.map List.flatten))

end

def getRoot : PlainRequest ⟨fun _ => .error .other, .GET⟩ where
  header := bytes "GET / HTTP/1.1\r\nContent-Length: 0"
  body := []
  terminated := by decide
  known := by decide
  announces := Or.inl ⟨bytes "GET / HTTP/1.1", [], by decide, Or.inl rfl, by decide, by decide⟩
  fits := by decide
  plain request h := by cases Except.ok.inj h; decide

def postRoot : PlainRequest ⟨fun _ => .error .other, .GET⟩ where
  header := bytes "POST / HTTP/1.1\r\nContent-Length: 3"
  body := bytes "abc"
  terminated := by decide
  known := by decide
  announces := Or.inl ⟨bytes "POST / HTTP/1.1", [], by decide, Or.inl rfl, by decide, by decide⟩
  fits := by decide
  plain request h := by cases Except.ok.inj h; decide

/-- Three requests in three batches; the second batch ends one and begins the next. -/
theorem pipeline_served_three :
    PipelineServed (.new {} none) [getRoot, postRoot, getRoot]
      [[getRoot.text.take 35], [getRoot.text.drop 35 ++ postRoot.text.take 10],
        [postRoot.text.drop 10, getRoot.text.take 4], [getRoot.text.drop 4]] :=
  (pipeline_served_iff (.new {} none) (by decide)).mpr (by decide)

/-- The second of two requests that arrive together stays in the buffer. -/
theorem pipeline_not_served :
    received [[getRoot.text ++ getRoot.text]] = ([getRoot, getRoot].map PlainRequest.text).flatten ∧
    ¬ PipelineServed (.new {} none) [getRoot, getRoot] [[getRoot.text ++ getRoot.text]] :=
  ⟨by decide, fun h => h.2 _ (List.prefix_refl _) ⟨getRoot, [], by decide⟩⟩

end Ryklys

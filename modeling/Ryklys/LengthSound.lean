import Ryklys.FramingSound

/-!
# How many bytes are body

The framing reads the number behind the first spelling of the name, wherever
that stands; `Parse` keeps the lines of a name. The two agree exactly when they
meet the same number. The rest of the header section can always change how many
bytes are taken; where the name is spelled first on a line of its own, only a
text that spells it in front of that line can (`framing_agrees_iff`).
-/

namespace Ryklys

open Search

/-! ## The body against the parsed headers -/

def headerSection (buf : Bytes) : Bytes :=
  match find crlfcrlf buf with
  | some headerEnd => buf.take headerEnd
  | none => buf

def storedLength (headers : StrMap) : Option Bytes :=
  (headers.lookup (bytes "Content-Length")).or (headers.lookup (bytes "content-length"))

/-- The body is as long as the stored header says, and empty without one. -/
def FramingAgrees (request : HttpRequest) : Prop :=
  match storedLength request.headers with
  | some value => decimalValue value = some request.body.length
  | none => request.body = []

instance (request : HttpRequest) : Decidable (FramingAgrees request) := by
  unfold FramingAgrees; split <;> infer_instance

def lengthLine (headerSection : Bytes) : Option Bytes :=
  (lastValue (bytes "Content-Length") (fieldLines headerSection)).or
    (lastValue (bytes "content-length") (fieldLines headerSection))

/-- The number after the first spelling of the name, wherever it stands, is the
one on the length line, and 0 without such a line. -/
def AnnouncesLine (headerSection : Bytes) : Prop :=
  match lengthLine headerSection with
  | some value => decimalValue value = some (announced headerSection)
  | none => announced headerSection = 0

instance (H : Bytes) : Decidable (AnnouncesLine H) := by
  unfold AnnouncesLine; split <;> infer_instance

theorem storedLength_parseHeaders (H : Bytes) : storedLength (parseHeaders H) = lengthLine H := by
  simp only [storedLength, lengthLine, lookup_headers]

theorem body_length {buf : Bytes} {headerEnd : Nat} (hf : find crlfcrlf buf = some headerEnd)
    (hsize : requestSize (buf.take headerEnd) ≤ buf.length) (hle : headerEnd + 4 ≤ requestSize (buf.take headerEnd)) :
    ((buf.drop (headerEnd + 4)).take (requestSize (buf.take headerEnd) - (headerEnd + 4))).length =
      announced (buf.take headerEnd) := by
  have hl := find_add_le hf
  have hn := announced_lt (buf.take headerEnd)
  have hlen := length_take_find hf
  rw [List.length_take, List.length_drop]
  simp only [requestSize, hlen, sizeMod] at hle hsize hn ⊢
  omega

theorem framingAgrees_iff {X : Externals} {buf completeRequest rest : Bytes} {request : HttpRequest}
    (hcut : cutRequest buf = .ok (some (completeRequest, rest))) (hparse : parse X completeRequest = .ok request) :
    FramingAgrees request ↔ requestSize (headerSection buf) = 0 ∨ AnnouncesLine (headerSection buf) := by
  cases hf : find crlfcrlf buf with
  | none => rw [cutRequest_none hf] at hcut; cases hcut
  | some headerEnd =>
    have hH : headerSection buf = buf.take headerEnd := by rw [headerSection, hf]
    rw [hH]
    rw [cutRequest_eq hf] at hcut
    split at hcut
    · cases hcut
    split at hcut
    · cases hcut
    rename_i hlt
    simp only [Except.ok.injEq, Option.some.injEq, Prod.mk.injEq] at hcut
    obtain ⟨rfl, -⟩ := hcut
    rcases Nat.lt_or_ge (requestSize (buf.take headerEnd)) (headerEnd + 4) with hshort | hle
    -- of the cuts inside the header block only the empty one parses, to no headers and no body
    · rw [parse_take_short hf hshort] at hparse
      split at hparse
      · rename_i h0
        cases hparse
        simp [FramingAgrees, storedLength, h0]
      · cases hparse
    · rw [parse_take hf hle] at hparse
      obtain ⟨-, hheaders, hbody⟩ := readRequest_ok hparse
      have hlen := body_length hf (Nat.le_of_not_lt hlt) hle
      rw [← hbody] at hlen
      have h0 : requestSize (buf.take headerEnd) ≠ 0 := by omega
      rw [FramingAgrees, AnnouncesLine, hheaders, storedLength_parseHeaders, ← hlen]
      cases lengthLine (buf.take headerEnd) with
      | some value => simp [h0]
      | none => simp [h0]

/-! ## What else the header section says -/

def isLengthLine (line : Bytes) : Bool :=
  (bytes "Content-Length:").isPrefixOf line || (bytes "content-length:").isPrefixOf line

def lengthLines (headerSection : Bytes) : List Bytes := (crlfLines headerSection).tail.filter isLengthLine

/-- `OnReadable` cuts off a request and takes `n` bytes as its body. -/
def Takes (buf : Bytes) (n : Nat) : Prop :=
  ∃ text rest, cutRequest buf = .ok (some (text, rest)) ∧ text.length = (headerSection buf).length + 4 + n

/-- The header sections differ in the request line, the names and the values of
other headers. -/
def SameLengths (buf buf' : Bytes) : Prop := lengthLines (headerSection buf') = lengthLines (headerSection buf)

/-- The line in which the name is spelled first is one of a length. -/
def SpelledByLine (headerSection : Bytes) : Prop :=
  match clPos headerSection with
  | some p =>
    2 ≤ (crlfLines (headerSection.take (p + 15))).length ∧
      isLengthLine ((crlfLines (headerSection.take (p + 15))).getLastD []) = true
  | none => True

instance (H : Bytes) : Decidable (SpelledByLine H) := by
  unfold SpelledByLine; split <;> infer_instance

/-- And the text that differs does not decide whether that is so. -/
structure SameSpelling (buf buf' : Bytes) : Prop where
  lengths : SameLengths buf buf'
  spelled : SpelledByLine (headerSection buf') ↔ SpelledByLine (headerSection buf)

/-- The text that may differ cannot change how many bytes are taken as body. -/
def Unaffected (same : Bytes → Bytes → Prop) (buf : Bytes) : Prop :=
  ∀ buf' n n', same buf buf' → contentLength (headerSection buf) = .ok n → Takes buf' n' → n' = n

/-! ### Lines -/

theorem crlfLines_ne_nil (s : Bytes) : crlfLines s ≠ [] := by
  cases h : find crlf s with
  | none =>
    rw [crlfLines_none h]
    exact List.cons_ne_nil _ _
  | some i =>
    rw [crlfLines_some h]
    exact List.cons_ne_nil _ _

/-- Text that ends with a colon leaves its last line open. -/
theorem crlfLines_open {a : Bytes} (h : a.getLast? = some 58) : ∃ pre x, crlfLines a = pre ++ [x] ∧ 58 ∈ x ∧
    ∀ b, crlfLines (a ++ b) = pre ++ (crlfLines b).modifyHead (x ++ ·) := by
  induction a using crlfLines.induct with
  | case1 => cases h
  | case2 s ih =>
    have hs : s.getLast? = some 58 := by
      cases s with
      | nil => cases h
      | cons c s => exact h
    obtain ⟨pre, x, he, hx, happ⟩ := ih hs
    refine ⟨[] :: pre, x, ?_, hx, fun b => ?_⟩
    · rw [crlfLines, he]
      rfl
    · rw [List.cons_append, List.cons_append, crlfLines, happ]
      rfl
  | case3 c s hno ih =>
    have hp : ¬ crlf <+: c :: s := by
      intro hp
      obtain ⟨hc, t, ht⟩ := crlf_prefix_iff.mp hp
      exact hno t hc ht
    cases s with
    | nil =>
      rw [List.getLast?_singleton, Option.some.injEq] at h
      subst h
      refine ⟨[], [58], rfl, List.mem_singleton_self _, fun b => ?_⟩
      have hb : ¬ crlf <+: 58 :: b := by
        intro hb
        cases (crlf_prefix_iff.mp hb).1
      exact crlfLines_cons hb
    | cons c' s =>
      obtain ⟨pre, x, he, hx, happ⟩ := ih h
      have hb : ∀ b, ¬ crlf <+: c :: ((c' :: s) ++ b) := by
        intro b hb
        obtain ⟨hc, t, ht⟩ := crlf_prefix_iff.mp hb
        rw [List.cons_append, List.cons.injEq] at ht
        exact hp (crlf_prefix_iff.mpr ⟨hc, s, by rw [ht.1]⟩)
      cases pre with
      | nil =>
        refine ⟨[], c :: x, ?_, List.mem_cons_of_mem c hx, fun b => ?_⟩
        · rw [crlfLines_cons hp, he]
          rfl
        · rw [List.cons_append, crlfLines_cons (hb b), happ]
          simp only [List.nil_append, List.modifyHead_modifyHead]
          rfl
      | cons l pre =>
        refine ⟨(c :: l) :: pre, x, ?_, hx, fun b => ?_⟩
        · rw [crlfLines_cons hp, he]
          rfl
        · rw [List.cons_append, crlfLines_cons (hb b), happ]
          rfl

theorem isLengthLine_append {x : Bytes} (h : 58 ∈ x) (v : Bytes) : isLengthLine (x ++ v) = isLengthLine x := by
  have hone : ∀ name : Bytes, 58 ∉ name → (name ++ [58] <+: x ++ v ↔ name ++ [58] <+: x) := by
    intro name hname
    refine ⟨fun hp => ?_, fun hp => hp.trans (List.prefix_append _ _)⟩
    rcases Nat.lt_or_ge x.length (name ++ [58]).length with hlt | hge
    · -- a shorter line would be a part of the name, without its colon
      have hx : x <+: name ++ [58] := List.prefix_of_prefix_length_le (List.prefix_append _ _) hp (Nat.le_of_lt hlt)
      rcases List.prefix_concat_iff.mp hx with he | hx
      · rw [he] at hlt
        exact absurd hlt (Nat.lt_irrefl _)
      · exact absurd (hx.subset h) hname
    · exact List.prefix_of_prefix_length_le hp (List.prefix_append _ _) hge
  have hupper := hone (bytes "Content-Length") (by decide)
  have hlower := hone (bytes "content-length") (by decide)
  rw [isLengthLine, isLengthLine, Bool.eq_iff_iff, Bool.or_eq_true, Bool.or_eq_true, List.isPrefixOf_iff_prefix,
    List.isPrefixOf_iff_prefix, List.isPrefixOf_iff_prefix, List.isPrefixOf_iff_prefix]
  exact or_congr hupper hlower

theorem crlfLines_skip {w : Bytes} (s : Bytes) (h : 13 ∉ w) :
    crlfLines (w ++ s) = (crlfLines s).modifyHead (w ++ ·) := by
  induction w with
  | nil =>
    obtain ⟨l, ls, hl⟩ := List.exists_cons_of_ne_nil (crlfLines_ne_nil s)
    rw [List.nil_append, hl]
    rfl
  | cons c w ih =>
    have hp : ¬ crlf <+: c :: (w ++ s) := by
      intro hp
      obtain ⟨rfl, -⟩ := crlf_prefix_iff.mp hp
      exact h List.mem_cons_self
    rw [List.cons_append, crlfLines_cons hp, ih fun hw => h (List.mem_cons_of_mem c hw), List.modifyHead_modifyHead]
    rfl

/-- The first line of a text ends where the text does or a carriage return stands. -/
theorem crlfLines_first {w v : Bytes} {vs : List Bytes} (h : crlfLines w = v :: vs) :
    w = v ++ w.drop v.length ∧ ∀ c ∈ (w.drop v.length).head?, c = 13 := by
  cases hf : find crlf w with
  | none =>
    rw [crlfLines_none hf, List.cons.injEq] at h
    obtain ⟨rfl, rfl⟩ := h
    rw [List.drop_length]
    exact ⟨(List.append_nil _).symm, fun c hc => by cases hc⟩
  | some i =>
    rw [crlfLines_some hf, List.cons.injEq] at h
    obtain ⟨rfl, rfl⟩ := h
    rw [length_take_find hf]
    obtain ⟨⟨t, ht⟩, -⟩ := find_spec hf
    refine ⟨(List.take_append_drop i w).symm, fun c hc => ?_⟩
    rw [← ht] at hc
    exact (Option.mem_some_iff.mp hc).symm

theorem line_within {s line : Bytes} (h : line ∈ crlfLines s) : line <:+: s := by
  generalize hls : crlfLines s = ls at h
  induction ls generalizing s with
  | nil => cases h
  | cons l ls ih =>
    cases hf : find crlf s with
    | none =>
      rw [crlfLines_none hf] at hls
      cases hls
      rw [List.mem_singleton.mp h]
    | some i =>
      rw [crlfLines_some hf, List.cons.injEq] at hls
      obtain ⟨rfl, hls⟩ := hls
      rcases List.mem_cons.mp h with rfl | h
      · exact (List.take_prefix i s).isInfix
      · exact (ih hls h).trans (List.drop_suffix _ s).isInfix

/-- The number read off a text is the one on its first line. -/
theorem fromChars_first {w v : Bytes} {vs : List Bytes} (h : crlfLines w = v :: vs) :
    fromChars (w.dropWhile isBlank) 0 = fromChars (v.dropWhile isBlank) 0 := by
  obtain ⟨hw, hhead⟩ := crlfLines_first h
  generalize hR : w.drop v.length = R at hw hhead
  rw [hw]
  cases R with
  | nil => rw [List.append_nil]
  | cons c R =>
    have hc : c = 13 := hhead c rfl
    subst hc
    -- a carriage return is no blank and no digit
    have hblank : (v ++ 13 :: R).dropWhile isBlank = v.dropWhile isBlank ++ 13 :: R := by
      rw [List.dropWhile_append]
      split
      · rename_i he
        rw [List.isEmpty_iff.mp he, List.dropWhile_cons_of_neg (by decide)]
        rfl
      · rfl
    have hdigits : (v.dropWhile isBlank ++ 13 :: R).takeWhile Numeral.isDigit =
        (v.dropWhile isBlank).takeWhile Numeral.isDigit := by
      rw [List.takeWhile_append]
      split
      · rename_i he
        have hall := (List.takeWhile_prefix Numeral.isDigit).eq_of_length he
        rw [List.takeWhile_cons_of_neg (by decide), List.append_nil]
        exact hall.symm
      · rfl
    rw [hblank, fromChars, fromChars, Numeral.readNat, Numeral.readNat, hdigits]

/-! ### The line that is read -/

/-- The number after the first spelling of one of the two names. -/
def numberAfter (name s : Bytes) : Option Nat :=
  (find name s).map fun p => fromChars ((s.drop (p + name.length)).dropWhile isBlank) 0

def lengthNumber (lines : List Bytes) : Nat :=
  ((lines.findSome? (numberAfter (bytes "Content-Length:"))).or
    (lines.findSome? (numberAfter (bytes "content-length:")))).getD 0

theorem announced_eq (H : Bytes) :
    announced H = ((numberAfter (bytes "Content-Length:") H).or (numberAfter (bytes "content-length:") H)).getD 0 := by
  have hupper : (bytes "Content-Length:").length = 15 := rfl
  have hlower : (bytes "content-length:").length = 15 := rfl
  rw [announced, afterName, clPos, numberAfter, numberAfter, hupper, hlower]
  cases find (bytes "Content-Length:") H with
  | some p => rfl
  | none =>
    cases find (bytes "content-length:") H with
    | some p => rfl
    | none => rfl

/-- The lines of a text that ends where it spells `name` for the first time. -/
theorem spelled_last {c : UInt8} {cs : Bytes} (h13 : 13 ∉ c :: cs) (h10 : (10 : UInt8) ≠ c) {pre : List Bytes}
    {x : Bytes} : ∀ {Q : Bytes} {p : Nat}, crlfLines Q = pre ++ [x] → find (c :: cs) Q = some p →
    p + (c :: cs).length = Q.length →
    (∀ l ∈ pre, find (c :: cs) l = none) ∧ ∃ q, find (c :: cs) x = some q ∧ q + (c :: cs).length = x.length := by
  induction pre with
  | nil =>
    intro Q p hlines hfind hend
    cases hf : find crlf Q with
    | none =>
      rw [crlfLines_none hf] at hlines
      cases hlines
      exact ⟨fun l hl => (by cases hl), p, hfind, hend⟩
    | some i =>
      rw [crlfLines_some hf, List.nil_append, List.cons.injEq] at hlines
      exact absurd hlines.2 (crlfLines_ne_nil _)
  | cons l pre ih =>
    intro Q p hlines hfind hend
    cases hf : find crlf Q with
    | none =>
      rw [crlfLines_none hf, List.cons_append, List.cons.injEq] at hlines
      exact absurd hlines.2 (by simp)
    | some i =>
      rw [crlfLines_some hf, List.cons_append, List.cons.injEq] at hlines
      obtain ⟨rfl, hlines⟩ := hlines
      have hlen := length_take_find hf
      obtain ⟨⟨t, ht⟩, -⟩ := find_spec hf
      have ht : Q.drop i = 13 :: 10 :: t := ht.symm
      have hrest : Q.drop (i + 2) = t := by
        rw [← List.drop_drop, ht]
        rfl
      have hQ : Q = Q.take i ++ 13 :: 10 :: t := by rw [← ht, List.take_append_drop]
      have hQlen : Q.length = i + 2 + t.length := by
        have := congrArg List.length hQ
        rw [List.length_append, hlen] at this
        simp only [List.length_cons] at this
        omega
      rw [hQ, find_append_sep h13, find_cons_ne h10, hlen] at hfind
      cases hl : find (c :: cs) (Q.take i) with
      | some q =>
        -- the first line would hold a spelling that ends before the text does
        rw [hl, Option.some_or, Option.some.injEq] at hfind
        have := find_add_le hl
        omega
      | none =>
        rw [hl, Option.none_or, Option.map_map] at hfind
        obtain ⟨p', hp', rfl⟩ := Option.map_eq_some_iff.mp hfind
        rw [hrest] at hlines
        simp only [Function.comp_apply] at hend
        obtain ⟨hpre, hx⟩ := ih hlines hp' (by omega)
        exact ⟨List.forall_mem_cons.mpr ⟨hl, hpre⟩, hx⟩

/-- The line that spells `name` first, cut behind the spelling. -/
structure SpelledIn (name H : Bytes) (p : Nat) (pre : List Bytes) (x v : Bytes) (post : List Bytes) : Prop where
  front : crlfLines (H.take (p + name.length)) = pre ++ [x]
  behind : crlfLines (H.drop (p + name.length)) = v :: post
  colon : 58 ∈ x
  lines : ∀ w : Bytes, 13 ∉ w →
    crlfLines (H.take (p + name.length) ++ (w ++ H.drop (p + name.length))) = pre ++ (x ++ (w ++ v)) :: post
  before : ∀ l ∈ pre, find name l = none
  here : ∃ q, find name x = some q ∧ q + name.length = x.length

/-- One of the two texts the framing searches for. -/
structure Spelling (name : Bytes) : Prop where
  length : name.length = 15
  head : ∃ c cs, name = c :: cs ∧ (10 : UInt8) ≠ c
  cr : 13 ∉ name
  colon : name.getLast? = some 58

theorem spelling_upper : Spelling (bytes "Content-Length:") := ⟨rfl, ⟨67, _, rfl, by decide⟩, by decide, rfl⟩

theorem spelling_lower : Spelling (bytes "content-length:") := ⟨rfl, ⟨99, _, rfl, by decide⟩, by decide, rfl⟩

theorem spelledIn {name H : Bytes} {p : Nat} (hname : Spelling name) (h : find name H = some p) :
    ∃ pre x v post, SpelledIn name H p pre x v post := by
  have hle := find_add_le h
  have hQ : (H.take (p + name.length)).length = p + name.length := List.length_take_of_le hle
  have hlast : (H.take (p + name.length)).getLast? = some 58 := by
    obtain ⟨t, ht⟩ := (find_spec h).1
    have hsplit : H.take (p + name.length) = H.take p ++ name := by
      rw [List.take_add, ← ht, List.take_left]
    rw [hsplit, List.getLast?_append, hname.colon]
    rfl
  obtain ⟨pre, x, hlines, hx, happ⟩ := crlfLines_open hlast
  obtain ⟨v, post, hv⟩ := List.exists_cons_of_ne_nil (crlfLines_ne_nil (H.drop (p + name.length)))
  obtain ⟨c, cs, rfl, h10⟩ := hname.head
  obtain ⟨hpre, hq⟩ := spelled_last hname.cr h10 hlines (find_take h (Nat.le_refl _)) hQ.symm
  refine ⟨pre, x, v, post, hlines, hv, hx, fun w hw => ?_, hpre, hq⟩
  rw [happ, crlfLines_skip _ hw, hv]
  rfl

theorem SpelledIn.numberAfter {name H : Bytes} {p : Nat} {pre post : List Bytes} {x v : Bytes}
    (h : SpelledIn name H p pre x v post) (hp : find name H = some p) :
    Ryklys.numberAfter name (x ++ v) = Ryklys.numberAfter name H := by
  obtain ⟨q, hq, hlen⟩ := h.here
  rw [Ryklys.numberAfter, Ryklys.numberAfter, find_append hq, hp, Option.map_some, Option.map_some, hlen,
    List.drop_left, fromChars_first h.behind]

theorem SpelledIn.lines_eq {name H : Bytes} {p : Nat} {pre post : List Bytes} {x v : Bytes}
    (h : SpelledIn name H p pre x v post) : crlfLines H = pre ++ (x ++ v) :: post := by
  have := h.lines [] (by simp)
  rwa [List.nil_append, List.nil_append, List.take_append_drop] at this

/-- A length line that spells the name first is the first of the length lines to do so. -/
theorem SpelledIn.findSome {name H : Bytes} {p : Nat} {pre post : List Bytes} {x v : Bytes}
    (h : SpelledIn name H p pre x v post) (hp : find name H = some p) (hpre : pre ≠ [])
    (hline : isLengthLine x = true) :
    (lengthLines H).findSome? (Ryklys.numberAfter name) = Ryklys.numberAfter name H := by
  obtain ⟨r, pre', rfl⟩ := List.exists_cons_of_ne_nil hpre
  have hnone : (pre'.filter isLengthLine).findSome? (Ryklys.numberAfter name) = none := by
    rw [List.findSome?_eq_none_iff]
    intro l hl
    rw [Ryklys.numberAfter, h.before l (List.mem_cons_of_mem r (List.mem_filter.mp hl).1)]
    rfl
  have hfirst := h.numberAfter hp
  have hsome : Ryklys.numberAfter name H = some (fromChars ((H.drop (p + name.length)).dropWhile isBlank) 0) := by
    rw [Ryklys.numberAfter, hp]
    rfl
  rw [lengthLines, h.lines_eq, List.cons_append, List.tail_cons, List.filter_append,
    List.filter_cons_of_pos (by rw [isLengthLine_append h.colon, hline]), List.findSome?_append, hnone, Option.none_or,
    List.findSome?_cons, hfirst, hsome]

theorem findSome_none {name H : Bytes} (h : find name H = none) :
    (lengthLines H).findSome? (numberAfter name) = none := by
  rw [List.findSome?_eq_none_iff]
  intro l hl
  have hline : l ∈ crlfLines H := List.mem_of_mem_tail (List.mem_filter.mp hl).1
  have hl : find name l = none := find_eq_none.mpr fun hi => find_eq_none.mp h (hi.trans (line_within hline))
  rw [numberAfter, hl]
  rfl

theorem SpelledIn.spelledByLine {name H : Bytes} {p : Nat} {pre post : List Bytes} {x v : Bytes}
    (h : SpelledIn name H p pre x v post) (hlen : name.length = 15) (hp : clPos H = some p) :
    SpelledByLine H ↔ pre ≠ [] ∧ isLengthLine x = true := by
  have hfront := h.front
  rw [hlen] at hfront
  simp only [SpelledByLine, hp, hfront, List.length_append, List.length_singleton, List.getLastD_concat]
  refine and_congr_left fun _ => ?_
  rw [← List.length_pos_iff]
  omega

/-- Read off a length line, the number is fixed by the length lines alone. -/
theorem announced_of_spelledByLine {H : Bytes} (h : SpelledByLine H) : announced H = lengthNumber (lengthLines H) := by
  rw [announced_eq, lengthNumber]
  cases hu : find (bytes "Content-Length:") H with
  | some p =>
    obtain ⟨pre, x, v, post, hin⟩ := spelledIn spelling_upper hu
    have hpos : clPos H = some p := by rw [clPos, hu, Option.some_or]
    obtain ⟨hpre, hline⟩ := (hin.spelledByLine rfl hpos).mp h
    have hsome : ∃ n, numberAfter (bytes "Content-Length:") H = some n := by
      rw [numberAfter, hu]
      exact ⟨_, rfl⟩
    obtain ⟨n, hn⟩ := hsome
    rw [hin.findSome hu hpre hline, hn, Option.some_or, Option.some_or]
  | none =>
    have hnone : numberAfter (bytes "Content-Length:") H = none := by rw [numberAfter, hu, Option.map_none]
    rw [findSome_none hu, hnone, Option.none_or, Option.none_or]
    cases hl : find (bytes "content-length:") H with
    | some p =>
      obtain ⟨pre, x, v, post, hin⟩ := spelledIn spelling_lower hl
      have hpos : clPos H = some p := by rw [clPos, hu, hl, Option.none_or]
      obtain ⟨hpre, hline⟩ := (hin.spelledByLine rfl hpos).mp h
      rw [hin.findSome hl hpre hline]
    | none => rw [findSome_none hl, numberAfter, hl, Option.map_none]

/-! ### Text put into a header section -/

theorem takes_announced {buf : Bytes} {n : Nat} (h : Takes buf n) : n = announced (headerSection buf) := by
  obtain ⟨text, rest, hcut, hlen⟩ := h
  cases hf : find crlfcrlf buf with
  | none => rw [cutRequest_none hf] at hcut; cases hcut
  | some headerEnd =>
    rw [headerSection, hf] at hlen ⊢
    dsimp only at hlen ⊢
    rw [cutRequest_eq hf] at hcut
    split at hcut
    · cases hcut
    split at hcut
    · cases hcut
    rename_i hlt
    simp only [Except.ok.injEq, Option.some.injEq, Prod.mk.injEq] at hcut
    obtain ⟨rfl, -⟩ := hcut
    have hn := announced_lt (buf.take headerEnd)
    rw [List.length_take_of_le (Nat.le_of_not_lt hlt)] at hlen
    simp only [requestSize, sizeMod] at hlen hn
    omega

theorem takes_of {buf : Bytes} {headerEnd : Nat} (hf : find crlfcrlf buf = some headerEnd)
    (hblank : ¬ BlankLength (buf.take headerEnd)) (hfits : headerEnd + 4 + announced (buf.take headerEnd) ≤ buf.length)
    (hword : buf.length < sizeMod) : Takes buf (announced (buf.take headerEnd)) := by
  have hlen := length_take_find hf
  have hsize : requestSize (buf.take headerEnd) = headerEnd + 4 + announced (buf.take headerEnd) := by
    rw [requestSize, hlen]
    exact Nat.mod_eq_of_lt (Nat.lt_of_le_of_lt hfits hword)
  refine ⟨buf.take (headerEnd + 4 + announced (buf.take headerEnd)),
    buf.drop (headerEnd + 4 + announced (buf.take headerEnd)), ?_, ?_⟩
  · rw [cutRequest_eq hf, hsize, if_neg hblank, if_neg (by omega)]
  · rw [List.length_take_of_le hfits, headerSection, hf, hlen]

/-- `buf` with `w` put in at `j`, and bytes behind it for a body. -/
def withText (buf : Bytes) (j : Nat) (w : Bytes) : Bytes := buf.take j ++ (w ++ buf.drop j) ++ [0, 0]

/-- A digit of another count, and the blank that ends it. -/
def otherCount (n : Nat) : Bytes := if n = 1 then [50, 32] else [49, 32]

theorem otherCount_spec (n : Nat) : ∃ d, d ≠ n ∧ d ≤ 2 ∧
    ∀ s, fromChars ((otherCount n ++ s).dropWhile isBlank) 0 = d ∧ ∃ c ∈ otherCount n ++ s, isBlank c = false := by
  by_cases h : n = 1
  · refine ⟨2, by omega, by omega, fun s => ?_⟩
    rw [otherCount, if_pos h]
    exact ⟨rfl, 50, List.mem_cons_self, rfl⟩
  · refine ⟨1, Ne.symm h, by omega, fun s => ?_⟩
    rw [otherCount, if_neg h]
    exact ⟨rfl, 49, List.mem_cons_self, rfl⟩

theorem otherCount_chars (n : Nat) : ∀ c ∈ otherCount n, c ∉ crlfcrlf ∧ c ∉ bytes "Content-Length:" := by
  unfold otherCount
  split
  · decide +kernel
  · decide +kernel

theorem otherCount_length (n : Nat) : (otherCount n).length = 2 := by
  unfold otherCount
  split
  · rfl
  · rfl

section
variable {buf : Bytes} {headerEnd j : Nat} {w : Bytes}

theorem find_withText (hf : find crlfcrlf buf = some headerEnd) (hj : j ≤ headerEnd) (hw : ∀ c ∈ w, c ∉ crlfcrlf) :
    find crlfcrlf (withText buf j w) = some (headerEnd + w.length) :=
  find_append (find_insert (by decide) hf hj hw) _

theorem take_withText (hf : find crlfcrlf buf = some headerEnd) (hj : j ≤ headerEnd) :
    (withText buf j w).take (headerEnd + w.length) =
      (buf.take headerEnd).take j ++ (w ++ (buf.take headerEnd).drop j) := by
  have hl := find_add_le hf
  have hfront : (buf.take j).length = j := List.length_take_of_le (by omega)
  have hbehind : (w ++ buf.drop j).take (headerEnd + w.length - j) = w ++ (buf.drop j).take (headerEnd - j) := by
    rw [show headerEnd + w.length - j = w.length + (headerEnd - j) by omega, List.take_length_add_append]
  have hlong : headerEnd + w.length ≤ (buf.take j ++ (w ++ buf.drop j)).length := by
    rw [List.length_append, List.length_append, hfront, List.length_drop]
    omega
  rw [withText, List.take_append_of_le_length hlong, List.take_append, hfront, hbehind,
    List.take_of_length_le (by omega), List.take_take, Nat.min_eq_left hj, List.drop_take]

theorem headerSection_withText (hf : find crlfcrlf buf = some headerEnd) (hj : j ≤ headerEnd)
    (hw : ∀ c ∈ w, c ∉ crlfcrlf) :
    headerSection (withText buf j w) = (buf.take headerEnd).take j ++ (w ++ (buf.take headerEnd).drop j) := by
  rw [headerSection, find_withText hf hj hw]
  exact take_withText hf hj

/-- Where the text put in brings its own count, that one is taken. -/
theorem takes_otherCount {n : Nat} {t : Bytes} (hf : find crlfcrlf buf = some headerEnd) (hj : j ≤ headerEnd)
    (hw : ∀ c ∈ w, c ∉ crlfcrlf) (hlen : w.length ≤ 64) (hbuf : buf.length < 2 ^ 63)
    (hafter : afterName ((buf.take headerEnd).take j ++ (w ++ (buf.take headerEnd).drop j)) =
      some (otherCount n ++ t)) :
    ∃ d, d ≠ n ∧ Takes (withText buf j w) d := by
  obtain ⟨d, hd, hle, hread⟩ := otherCount_spec n
  obtain ⟨hread, c, hc, hblank⟩ := hread t
  have hf' := find_withText hf hj hw
  have hl := find_add_le hf
  rw [crlfcrlf_length] at hl
  have hlong : (withText buf j w).length = buf.length + w.length + 2 := by
    rw [withText, List.length_append, List.length_append, List.length_append, List.length_drop,
      List.length_take_of_le (by omega)]
    simp only [List.length_cons, List.length_nil]
    omega
  have hcount : announced ((withText buf j w).take (headerEnd + w.length)) = d := by
    rw [take_withText hf hj, announced, hafter]
    exact hread
  have hnot : ¬ BlankLength ((withText buf j w).take (headerEnd + w.length)) := by
    rw [take_withText hf hj]
    rintro ⟨text, htext, hall⟩
    rw [hafter, Option.mem_some] at htext
    subst htext
    exact Bool.false_ne_true (hblank.symm.trans (hall c hc))
  refine ⟨d, hd, ?_⟩
  rw [← hcount]
  exact takes_of hf' hnot (by omega) (by simp only [sizeMod]; omega)

/-- A request line can spell the name in front of every other spelling. -/
theorem not_unaffected_lengths {n : Nat} (hf : find crlfcrlf buf = some headerEnd) (hbuf : buf.length < 2 ^ 63)
    (hn : contentLength (headerSection buf) = .ok n) : ¬ Unaffected SameLengths buf := by
  intro hun
  have hchars := otherCount_chars n
  have hw : ∀ c ∈ bytes "GET /Content-Length:" ++ otherCount n, c ∉ crlfcrlf := by
    intro c hc
    rcases List.mem_append.mp hc with hc | hc
    · exact (show ∀ c ∈ bytes "GET /Content-Length:", c ∉ crlfcrlf by decide +kernel) c hc
    · exact (hchars c hc).1
  have hlen : (bytes "GET /Content-Length:" ++ otherCount n).length ≤ 64 := by
    rw [List.length_append, otherCount_length]
    decide
  have hafter : afterName ((buf.take headerEnd).take 0 ++
      (bytes "GET /Content-Length:" ++ otherCount n ++ (buf.take headerEnd).drop 0)) =
      some (otherCount n ++ buf.take headerEnd) := by
    have hfind : find (bytes "Content-Length:") (bytes "GET /Content-Length:") = some 5 := by decide
    rw [List.take_zero, List.nil_append, List.drop_zero, List.append_assoc, afterName, clPos, find_append hfind]
    rfl
  obtain ⟨d, hd, htakes⟩ := takes_otherCount hf (Nat.zero_le _) hw hlen hbuf hafter
  refine hd (hun _ n d ?_ hn htakes)
  have hH : headerSection buf = buf.take headerEnd := by rw [headerSection, hf]
  rw [SameLengths, headerSection_withText hf (Nat.zero_le _) hw, hH, lengthLines, lengthLines, List.take_zero,
    List.nil_append, List.drop_zero, crlfLines_skip _ fun hc => hw 13 hc (by decide)]
  cases crlfLines (buf.take headerEnd) with
  | nil => rfl
  | cons l ls => rfl

/-- The same behind a spelling outside the length lines, which stays the first. -/
theorem not_unaffected_spelling {n : Nat} (hf : find crlfcrlf buf = some headerEnd) (hbuf : buf.length < 2 ^ 63)
    (hn : contentLength (headerSection buf) = .ok n) (h : ¬ SpelledByLine (headerSection buf)) :
    ¬ Unaffected SameSpelling buf := by
  intro hun
  have hH : headerSection buf = buf.take headerEnd := by rw [headerSection, hf]
  rw [hH] at h
  have hchars := otherCount_chars n
  have hw : ∀ c ∈ otherCount n, c ∉ crlfcrlf := fun c hc => (hchars c hc).1
  have hcr : 13 ∉ otherCount n := fun hc => hw 13 hc (by decide)
  have hlen : (otherCount n).length ≤ 64 := by
    rw [otherCount_length]
    decide
  -- the spelling that is read, with the other one nowhere in front of it
  have hspelled : ∃ name p, Spelling name ∧ find name (buf.take headerEnd) = some p ∧
      clPos (buf.take headerEnd) = some p ∧
      clPos ((buf.take headerEnd).take (p + 15) ++ (otherCount n ++ (buf.take headerEnd).drop (p + 15))) = some p := by
    cases hu : find (bytes "Content-Length:") (buf.take headerEnd) with
    | some p =>
      refine ⟨_, p, spelling_upper, hu, by rw [clPos, hu, Option.some_or], ?_⟩
      have hfront : find (bytes "Content-Length:") ((buf.take headerEnd).take (p + 15)) = some p :=
        find_take hu (Nat.le_refl _)
      rw [clPos, find_append hfront, Option.some_or]
    | none =>
      cases hl : find (bytes "content-length:") (buf.take headerEnd) with
      | some p =>
        refine ⟨_, p, spelling_lower, hl, by rw [clPos, hu, hl, Option.none_or], ?_⟩
        have hnone := find_insert_none (p + 15) (by decide) hu fun c hc => (hchars c hc).2
        have hfront : find (bytes "content-length:") ((buf.take headerEnd).take (p + 15)) = some p :=
          find_take hl (Nat.le_refl _)
        rw [clPos, hnone, Option.none_or, find_append hfront]
      | none =>
        refine absurd ?_ h
        have hpos : clPos (buf.take headerEnd) = none := by rw [clPos, hu, hl, Option.none_or]
        simp only [SpelledByLine, hpos]
  obtain ⟨name, p, hname, hfind, hpos, hpos'⟩ := hspelled
  have hp := find_add_le hfind
  rw [hname.length, length_take_find hf] at hp
  have hafter : afterName ((buf.take headerEnd).take (p + 15) ++ (otherCount n ++ (buf.take headerEnd).drop (p + 15))) =
      some (otherCount n ++ (buf.take headerEnd).drop (p + 15)) := by
    have hfront : ((buf.take headerEnd).take (p + 15)).length = p + 15 := by
      rw [List.length_take, length_take_find hf, Nat.min_eq_left hp]
    rw [afterName, hpos', Option.map_some, List.drop_left' hfront]
  obtain ⟨d, hd, htakes⟩ := takes_otherCount hf hp hw hlen hbuf hafter
  refine hd (hun _ n d ?_ hn htakes)
  obtain ⟨pre, x, v, post, hin⟩ := spelledIn hname hfind
  have hline := (hin.spelledByLine hname.length hpos).not.mp h
  have hlines := hin.lines (otherCount n) hcr
  rw [hname.length] at hlines
  have hH' := headerSection_withText (w := otherCount n) hf hp hw
  refine ⟨?_, ?_⟩
  · rw [SameLengths, hH', hH, lengthLines, lengthLines, hlines, hin.lines_eq]
    cases pre with
    | nil => rfl
    | cons r pre =>
      have hx : isLengthLine x = false := by
        rw [← Bool.not_eq_true]
        exact fun hx => hline ⟨List.cons_ne_nil _ _, hx⟩
      rw [List.cons_append, List.cons_append, List.tail_cons, List.tail_cons, List.filter_append, List.filter_append,
        List.filter_cons_of_neg (by rw [isLengthLine_append hin.colon, hx]; exact Bool.false_ne_true),
        List.filter_cons_of_neg (by rw [isLengthLine_append hin.colon, hx]; exact Bool.false_ne_true)]
  · have hfront : ((buf.take headerEnd).take (p + 15) ++ (otherCount n ++ (buf.take headerEnd).drop (p + 15))).take
        (p + 15) = (buf.take headerEnd).take (p + 15) := by
      rw [List.take_left' (by rw [List.length_take, length_take_find hf, Nat.min_eq_left hp])]
    rw [hH', hH]
    simp only [SpelledByLine, hpos, hpos', hfront]

end

theorem unaffected_of_spelledByLine {buf : Bytes} (h : SpelledByLine (headerSection buf)) :
    Unaffected SameSpelling buf := by
  intro buf' n n' hsame hn htakes
  rw [contentLength_eq] at hn
  split at hn
  · cases hn
  cases hn
  rw [takes_announced htakes, announced_of_spelledByLine (hsame.spelled.mpr h), announced_of_spelledByLine h,
    hsame.lengths]

/-- **Framing and parsing.** The parsed request agrees with the bytes cut off
for it exactly when the two scans of the header section meet the same number,
or the size sum wrapped to zero and nothing was cut. Other text can change how
many bytes are body whatever the request is; as far as it leaves the first
spelling on a length line or off it, it can exactly when that is off it. -/
theorem framing_agrees_iff {X : Externals} {buf completeRequest rest : Bytes} {request : HttpRequest}
    (hcut : cutRequest buf = .ok (some (completeRequest, rest))) (hparse : parse X completeRequest = .ok request) :
    (FramingAgrees request ↔ requestSize (headerSection buf) = 0 ∨ AnnouncesLine (headerSection buf)) ∧
    (buf.length < 2 ^ 63 → ¬ Unaffected SameLengths buf ∧
      (Unaffected SameSpelling buf ↔ SpelledByLine (headerSection buf))) := by
  refine ⟨framingAgrees_iff hcut hparse, fun hbuf => ?_⟩
  cases hf : find crlfcrlf buf with
  | none => rw [cutRequest_none hf] at hcut; cases hcut
  | some headerEnd =>
    have hn : contentLength (headerSection buf) = .ok (announced (headerSection buf)) := by
      have hH : headerSection buf = buf.take headerEnd := by rw [headerSection, hf]
      rw [contentLength_eq, if_neg]
      intro hblank
      rw [hH] at hblank
      rw [cutRequest_eq hf, if_pos hblank] at hcut
      cases hcut
    refine ⟨not_unaffected_lengths hf hbuf hn, ?_, unaffected_of_spelledByLine⟩
    intro hun
    by_contra h
    exact not_unaffected_spelling hf hbuf hn h hun

theorem framing_agrees_post : ∃ request,
    parse ⟨fun _ => .error .other, .GET⟩ (bytes "POST / HTTP/1.1\r\nContent-Length: 3\r\n\r\nabc") = .ok request ∧
    FramingAgrees request ∧
    Unaffected SameSpelling (bytes "POST / HTTP/1.1\r\nContent-Length: 3\r\n\r\nabcGET") := by
  have hcut : cutRequest (bytes "POST / HTTP/1.1\r\nContent-Length: 3\r\n\r\nabcGET") =
      .ok (some (bytes "POST / HTTP/1.1\r\nContent-Length: 3\r\n\r\nabc", bytes "GET")) := rfl
  obtain ⟨request, hparse⟩ : ∃ request, parse ⟨fun _ => .error .other, .GET⟩
      (bytes "POST / HTTP/1.1\r\nContent-Length: 3\r\n\r\nabc") = .ok request := ⟨_, rfl⟩
  have h := framing_agrees_iff hcut hparse
  exact ⟨request, hparse, h.1.mpr (Or.inr (by decide)), (h.2 (by decide)).2.mpr (by decide)⟩

theorem framing_disagrees_post : (∃ request,
    cutRequest (bytes "POST / HTTP/1.1\r\nX-Content-Length: 3\r\n\r\nabc") =
      .ok (some (bytes "POST / HTTP/1.1\r\nX-Content-Length: 3\r\n\r\nabc", [])) ∧
    parse ⟨fun _ => .error .other, .GET⟩ (bytes "POST / HTTP/1.1\r\nX-Content-Length: 3\r\n\r\nabc") = .ok request ∧
    ¬ FramingAgrees request) ∧
    SameLengths (bytes "POST / HTTP/1.1\r\nX-Content-Length: 3\r\nContent-Length: 3\r\n\r\nabc")
      (bytes "POST / HTTP/1.1\r\nX-Content-Length: 2\r\nContent-Length: 3\r\n\r\nabc") ∧
    cutRequest (bytes "POST / HTTP/1.1\r\nX-Content-Length: 3\r\nContent-Length: 3\r\n\r\nabc") =
      .ok (some (bytes "POST / HTTP/1.1\r\nX-Content-Length: 3\r\nContent-Length: 3\r\n\r\nabc", [])) ∧
    cutRequest (bytes "POST / HTTP/1.1\r\nX-Content-Length: 2\r\nContent-Length: 3\r\n\r\nabc") =
      .ok (some (bytes "POST / HTTP/1.1\r\nX-Content-Length: 2\r\nContent-Length: 3\r\n\r\nab", bytes "c")) := by
  refine ⟨⟨_, rfl, rfl, by decide⟩, ?_, rfl, rfl⟩
  unfold SameLengths
  decide +kernel

end Ryklys

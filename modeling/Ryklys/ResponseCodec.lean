import Ryklys.HeaderSplitSound
import Ryklys.SelfDelimiting

/-!
# Responses as a client reads them

A client that takes the `Content-Length` for the length of the body finds the
end of a response among the bytes of a connection, as long as no header and no
status text breaks and the handler wrote no length of its own
(`responseCodec`).
-/

namespace Ryklys

open Search SelfDelimiting

structure ClientResponse where
  statusLine : Bytes
  headers : List Bytes
  body : Bytes
  deriving DecidableEq, Repr

def isLengthName (name : Bytes) : Bool := decide (lower name = bytes "content-length")

/-- The length in a header line, if it is a `Content-Length`. -/
def lengthField (line : Bytes) : Option Nat :=
  match cutAt 58 line with
  | some (name, value) => if isLengthName name then Numeral.readNat (value.dropWhile isBlank) else none
  | none => none

def bodyLength (headers : List Bytes) : Nat := (headers.findSome? lengthField).getD 0

/-- The response at the front of the buffer and its size. -/
def readResponse (buf : Bytes) : Option (ClientResponse × Nat) :=
  match find crlfcrlf buf, clientHeader buf with
  | some headerEnd, statusLine :: headers =>
    let size := headerEnd + 4 + bodyLength headers
    if buf.length < size then none else some (⟨statusLine, headers, (buf.take size).drop (headerEnd + 4)⟩, size)
  | _, _ => none

/-! ## Header blocks -/

/-- The end of a header block is where its lines end. -/
theorem find_lines {lines : List Bytes} (hne : lines ≠ []) (h : ∀ line ∈ lines, Unbroken line ∧ line ≠ [])
    (rest : Bytes) :
    find crlfcrlf (lines.flatMap (· ++ crlf) ++ crlf ++ rest) = some ((lines.flatMap (· ++ crlf)).length - 2) := by
  induction lines with
  | nil => exact absurd rfl hne
  | cons line lines ih =>
    obtain ⟨hu, -⟩ := h line (List.mem_cons_self ..)
    have hskip : find (13 :: [10, 13, 10]) (line ++ (crlf ++ (lines.flatMap (· ++ crlf) ++ crlf ++ rest))) = _ :=
      find_skip _ hu.1
    rw [List.flatMap_cons, List.append_assoc, List.append_assoc, List.append_assoc,
      show lines.flatMap (· ++ crlf) ++ (crlf ++ rest) = lines.flatMap (· ++ crlf) ++ crlf ++ rest from
        (List.append_assoc ..).symm, show crlfcrlf = 13 :: [10, 13, 10] from rfl, hskip]
    cases lines with
    | nil =>
      rw [List.flatMap_nil, List.nil_append, find_of_prefix (by simp [crlf, bytes]), Option.map_some]
      simp [crlf_length]
    | cons next lines =>
      obtain ⟨hn, hnext⟩ := h next (List.mem_cons_of_mem line (List.mem_cons_self ..))
      have ih := ih (List.cons_ne_nil _ _) fun l hl => h l (List.mem_cons_of_mem line hl)
      obtain ⟨c, s, rfl⟩ := List.exists_cons_of_ne_nil hnext
      have h13 : c ≠ 13 := fun hc => hn.1 (by rw [hc]; exact List.mem_cons_self ..)
      -- a CRLF in front of a line that does not start with CR is not the end
      have hfront : find (13 :: [10, 13, 10]) (crlf ++ ((((c :: s) :: lines).flatMap (· ++ crlf)) ++ crlf ++ rest)) =
          (find crlfcrlf ((((c :: s) :: lines).flatMap (· ++ crlf)) ++ crlf ++ rest)).map (· + 2) := by
        rw [show crlf = [13, 10] from rfl, List.cons_append, List.cons_append, List.nil_append, find_cons, if_neg,
          find_cons_ne (by decide), Option.map_map]
        · rfl
        · simp only [List.flatMap_cons, List.cons_append, List.cons_prefix_cons]
          rintro ⟨-, -, hc, -⟩
          exact h13 hc.symm
      rw [hfront, ih]
      simp only [Option.map_some, Option.some.injEq, List.flatMap_cons, List.length_append, List.length_cons,
        crlf_length]
      omega

/-! ## Responses that carry their length -/

structure LengthFramed (r : HttpResponse) : Prop where
  statusText : Unbroken r.statusText
  headers : UnbrokenHeaders r.headers
  -- no header of the map is read as a length
  own : ∀ pair ∈ r.headers.entries, isLengthName (pair.1.takeWhile fun c => decide (c ≠ 58)) = false

abbrev FramedResponse := { r : HttpResponse // LengthFramed r }

namespace HttpResponse

def seen (r : HttpResponse) : ClientResponse :=
  ⟨bytes "HTTP/1.1 " ++ Numeral.ofInt r.statusCode ++ bytes " " ++ r.statusText, r.ownHeaders, r.body⟩

theorem serializeResponse_lines (r : HttpResponse) :
    serializeResponse r = (r.seen.statusLine :: r.ownHeaders).flatMap (· ++ crlf) ++ crlf ++ r.body := by
  rw [serializeResponse_eq, List.flatMap_cons, statusLine, seen]
  simp only [List.append_assoc]

theorem unbroken_lines {r : HttpResponse} (h : LengthFramed r) :
    ∀ line ∈ r.seen.statusLine :: r.ownHeaders, Unbroken line ∧ line ≠ [] := by
  intro line hl
  rw [List.mem_cons, ownHeaders, List.mem_append, List.mem_map, List.mem_cons, List.mem_singleton] at hl
  rcases hl with rfl | ⟨pair, hp, rfl⟩ | rfl | rfl
  · refine ⟨Unbroken.append (Unbroken.append (Unbroken.append (by decide) (unbroken_ofInt _)) (by decide)) h.statusText,
      ?_⟩
    simp [seen, bytes]
  · refine ⟨((h.headers pair hp).1.append (by decide)).append (h.headers pair hp).2, ?_⟩
    simp [bytes]
  · exact ⟨Unbroken.append (by decide) (unbroken_ofNat _), by simp [bytes]⟩
  · exact ⟨by decide, by decide⟩

end HttpResponse

theorem takeWhile_colon (name value : Bytes) :
    (name ++ 58 :: value).takeWhile (fun c => decide (c ≠ 58)) = name.takeWhile fun c => decide (c ≠ 58) := by
  induction name with
  | nil => rfl
  | cons c name ih =>
    by_cases hc : c = 58
    · subst hc
      rfl
    · rw [List.cons_append, List.takeWhile_cons_of_pos (by simpa using hc),
        List.takeWhile_cons_of_pos (by simpa using hc), ih]

theorem lengthField_none {name : Bytes} (h : isLengthName (name.takeWhile fun c => decide (c ≠ 58)) = false)
    (value : Bytes) : lengthField (name ++ bytes ": " ++ value) = none := by
  rw [List.append_assoc, show bytes ": " ++ value = 58 :: 32 :: value from rfl, lengthField, cutAt, if_pos (by simp),
    takeWhile_colon]
  simp only
  rw [if_neg (by rw [h]; decide)]

theorem lengthField_own (n : Nat) : lengthField (bytes "Content-Length: " ++ Numeral.ofNat n) = some n := by
  have hcut : cutAt 58 (bytes "Content-Length: " ++ Numeral.ofNat n) =
      some (bytes "Content-Length", 32 :: Numeral.ofNat n) := cutAt_append (a := bytes "Content-Length") (by decide) _
  have hblank : (32 :: Numeral.ofNat n).dropWhile isBlank = Numeral.ofNat n := by
    obtain ⟨c, s, hs⟩ := List.exists_cons_of_ne_nil (Numeral.ofNat_ne_nil n)
    have hc : isBlank c = false := by
      have hd := Numeral.isDigit_ofNat n c (by rw [hs]; exact List.mem_cons_self ..)
      simp only [isBlank, Bool.or_eq_false_iff, beq_eq_false_iff_ne]
      constructor <;> (rintro rfl; cases hd)
    rw [List.dropWhile_cons_of_pos (by decide), hs, List.dropWhile_cons_of_neg (by rw [hc]; decide)]
  have hread := Numeral.readNat_ofNat n (t := []) fun c hc => by cases hc
  rw [List.append_nil] at hread
  rw [lengthField, hcut]
  simp only
  rw [if_pos (by decide), hblank, hread]

theorem bodyLength_own {r : HttpResponse} (h : LengthFramed r) : bodyLength r.ownHeaders = r.body.length := by
  have hmap : (r.headers.entries.map fun pair => pair.1 ++ bytes ": " ++ pair.2).findSome? lengthField = none := by
    rw [List.findSome?_eq_none_iff]
    intro line hl
    obtain ⟨pair, hp, rfl⟩ := List.mem_map.mp hl
    exact lengthField_none (h.own pair hp) pair.2
  rw [bodyLength, HttpResponse.ownHeaders, List.findSome?_append, hmap, Option.none_or, List.findSome?_cons,
    lengthField_own, Option.getD_some]

/-! ## The codec -/

theorem serializeResponse_length (r : HttpResponse) :
    (serializeResponse r).length =
      ((r.seen.statusLine :: r.ownHeaders).flatMap (· ++ crlf)).length - 2 + 4 + r.body.length := by
  rw [HttpResponse.serializeResponse_lines]
  simp only [List.length_append, List.flatMap_cons, crlf_length]
  omega

theorem readResponse_append {r : HttpResponse} (h : LengthFramed r) (t : Bytes) :
    readResponse (serializeResponse r ++ t) = some (r.seen, (serializeResponse r).length) := by
  have hlines := HttpResponse.unbroken_lines h
  have hfind := find_lines (List.cons_ne_nil _ _) hlines (r.body ++ t)
  have hhead := clientHeader_lines _ (r.body ++ t) hlines
  have hlen := serializeResponse_length r
  rw [← List.append_assoc, ← HttpResponse.serializeResponse_lines] at hfind hhead
  rw [readResponse, hfind, hhead]
  simp only
  rw [bodyLength_own h, ← hlen, if_neg (by simp), List.take_left]
  -- behind the header block there is the body
  have hbody : (serializeResponse r).drop
      (((r.seen.statusLine :: r.ownHeaders).flatMap (· ++ crlf)).length - 2 + 4) = r.body := by
    rw [HttpResponse.serializeResponse_lines]
    exact List.drop_left' (by simp only [List.length_append, List.flatMap_cons, crlf_length]; omega)
  rw [hbody]
  rfl

theorem readResponse_short {r : HttpResponse} (h : LengthFramed r) {n : Nat} (hn : n < (serializeResponse r).length) :
    readResponse ((serializeResponse r).take n) = none := by
  have hlines := HttpResponse.unbroken_lines h
  have hfind := find_lines (List.cons_ne_nil _ _) hlines r.body
  have hlen := serializeResponse_length r
  rw [← HttpResponse.serializeResponse_lines] at hfind
  rw [readResponse]
  rcases Nat.lt_or_ge n (((r.seen.statusLine :: r.ownHeaders).flatMap (· ++ crlf)).length - 2 + 4) with hlt | hge
  · rw [find_take_lt hfind (by rw [crlfcrlf_length]; exact hlt)]
  · -- the whole block is there, part of the body is not
    have hsplit : (serializeResponse r).take n = (r.seen.statusLine :: r.ownHeaders).flatMap (· ++ crlf) ++ crlf ++
        r.body.take (n - ((r.seen.statusLine :: r.ownHeaders).flatMap (· ++ crlf) ++ crlf).length) := by
      rw [HttpResponse.serializeResponse_lines, List.take_append, List.take_of_length_le]
      simp only [List.length_append, List.flatMap_cons, crlf_length] at hge ⊢
      omega
    have hhead := clientHeader_lines _ (r.body.take
      (n - ((r.seen.statusLine :: r.ownHeaders).flatMap (· ++ crlf) ++ crlf).length)) hlines
    rw [← hsplit] at hhead
    rw [find_take hfind (by rw [crlfcrlf_length]; exact hge), hhead]
    simp only
    rw [bodyLength_own h, ← hlen, if_pos (by rw [List.length_take]; omega)]

/-- **Responses are self-delimiting.** -/
def responseCodec : Codec UInt8 ClientResponse FramedResponse where
  enc r := serializeResponse r.1
  out r := r.1.seen
  dec := readResponse
  enc_ne_nil r h := by
    have hlen := serializeResponse_length r.1
    rw [h, List.length_nil] at hlen
    omega
  dec_nil := rfl
  dec_enc r t := readResponse_append r.2 t
  dec_short r _ hn := readResponse_short r.2 hn

end Ryklys

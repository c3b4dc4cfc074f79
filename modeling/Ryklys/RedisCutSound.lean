import Ryklys.RedisLink
import Ryklys.RedisSound

/-!
# What a cut reply stream is taken for

A reader that meets the end of the stream gives up the descriptor and returns
an empty text, which `readBulkString` wraps as a value and `readArray` as an
element. `get` is right unless its cut reply came at least to the CR of its
first line, a subscription unless the array that is cut came at least to the
end of the text it starts with (`cut_stream_iff`).
-/

namespace Ryklys

/-! ## Streams of arrays -/

/-- What the server sends on a connection that subscribes. -/
inductive Push where
  | subscribed (channel : Bytes) (n : Int)
  | psubscribed (pattern : Bytes) (n : Int)
  | message (channel payload : Bytes)
  | pmessage (pattern channel payload : Bytes)

namespace Push

def kind : Push → Bytes
  | subscribed _ _ => bytes "subscribe"
  | psubscribed _ _ => bytes "psubscribe"
  | message _ _ => bytes "message"
  | pmessage _ _ _ => bytes "pmessage"

def args : Push → List Reply
  | subscribed channel n => [.bulk channel, .integer n]
  | psubscribed pattern n => [.bulk pattern, .integer n]
  | message channel payload => [.bulk channel, .bulk payload]
  | pmessage pattern channel payload => [.bulk pattern, .bulk channel, .bulk payload]

def elements (p : Push) : List Reply := .bulk p.kind :: p.args

def header (p : Push) : Bytes := bytes "*" ++ Numeral.ofNat p.elements.length

def encode (p : Push) : Bytes := p.header ++ crlf ++ p.elements.flatMap Reply.encode

end Push

/-- The arrays of which every byte is in front of the cut. -/
def wholly : List Push → Nat → List Push
  | [], _ => []
  | p :: ps, cut => if p.encode.length ≤ cut then p :: wholly ps (cut - p.encode.length) else []

/-- The array that is cut, with the number of its bytes in front of the cut. -/
def torn : List Push → Nat → Option (Push × Nat)
  | [], _ => none
  | p :: ps, cut => if p.encode.length ≤ cut then torn ps (cut - p.encode.length) else some (p, cut)

namespace Reply

def value : Reply → Option Bytes
  | bulk payload => some payload
  | simple text => some text
  | _ => none

/-- The bytes behind which the reader has its value: all but the last LF or CRLF. -/
def enough : Reply → Nat
  | bulk payload => (bulk payload).line.length + 2 + payload.length
  | reply => reply.line.length + 1

/-- What the server keeps to: a simple string or an error is one line, and a
bulk string is shorter than 2^31 bytes. -/
def WellFormed : Reply → Prop
  | bulk payload => payload.length < 2 ^ 31
  | simple text | error text => OneLine text
  | _ => True

end Reply

def Push.enough (p : Push) : Nat := p.header.length + 2 + (Reply.bulk p.kind).enough

def Reply.text (r : Reply) : Bytes := r.value.getD []

/-- The replies of an array that starts at `pos` are well formed, and the
`recv` behind each payload returns the whole CRLF. -/
def EndsWhole (limit : Nat → Nat) : Nat → List Reply → Prop
  | _, [] => True
  | pos, r :: rs => (r.WellFormed ∧ RedisClient.WholeEnd limit pos r) ∧ EndsWhole limit (pos + r.encode.length) rs

def PushesWhole (limit : Nat → Nat) : Nat → List Push → Prop
  | _, [] => True
  | pos, p :: ps =>
    EndsWhole limit (pos + (p.header.length + 2)) p.elements ∧ PushesWhole limit (pos + p.encode.length) ps

inductive Listening where
  | message
  | pmessage

namespace Listening

def kind : Listening → Bytes
  | message => bytes "message"
  | pmessage => bytes "pmessage"

def pick : Listening → List Bytes → Option (Bytes × Bytes)
  | message => RedisLink.message
  | pmessage => RedisClient.pmessage

def callFor : Listening → Push → Option (Bytes × Bytes)
  | message, .message channel payload => some (channel, payload)
  | pmessage, .pmessage _ channel payload => some (channel, payload)
  | _, _ => none

/-- What is cut is of another kind, or cut in the text of its kind. -/
def Quiet (k : Listening) : Option (Push × Nat) → Prop
  | none => True
  | some (p, m) => p.kind = k.kind → m < p.enough

end Listening

/-! ## A link and its stream -/

namespace RedisLink

def advance (l : RedisLink) (n : Nat) : RedisLink := { l with client := l.client.advance n }

/-- `l` is at the front of `s`, which is cut behind `cut` bytes. -/
structure At (l : RedisLink) (s : Bytes) (cut pos : Nat) : Prop where
  connected : l.connected = true
  unread : l.client.unread = s.take cut
  received : l.client.unread ≠ [] → l.client.received = pos

/-- Nothing is left to read. -/
def Spent (l : RedisLink) : Prop := l.connected = false ∨ l.client.unread = []

variable (limit : Nat → Nat) {l : RedisLink} {s front rest : Bytes} {cut pos : Nat}

theorem At.spent (h : l.At s 0 pos) : l.Spent := .inr (by rw [h.unread, List.take_zero])

theorem recv_spent (h : l.Spent) (count : Nat) : l.recv limit count = none := by
  rcases h with h | h
  · simp [recv, h]
  · simp [recv, RedisClient.recv, h]

theorem skip_spent (h : l.Spent) (count : Nat) : l.skip limit count = l := by rw [skip, recv_spent limit h]

theorem recv_connected (hc : l.connected = true) (hu : l.client.unread ≠ []) (count : Nat) :
    l.recv limit count =
      (let n := acceptCount (limit l.client.received) (min count l.client.unread.length)
       some (l.client.unread.take n, l.advance n)) := by
  simp [recv, RedisClient.recv, hc, hu, advance]

theorem recv_one {b : UInt8} (hc : l.connected = true) (hu : l.client.unread = b :: rest) :
    l.recv limit 1 = some ([b], l.advance 1) := by
  have hn : acceptCount (limit l.client.received) (min 1 l.client.unread.length) = 1 := by
    unfold acceptCount
    omega
  rw [recv_connected limit hc (by rw [hu]; simp), hn, hu]
  rfl

theorem At.advance (h : l.At (front ++ rest) cut pos) :
    (l.advance front.length).At rest (cut - front.length) (pos + front.length) := by
  have hu : (l.advance front.length).client.unread = rest.take (cut - front.length) := by
    change l.client.unread.drop front.length = _
    rw [h.unread, List.drop_take, List.drop_left]
  refine ⟨h.connected, hu, ?_⟩
  intro hne
  change l.client.received + front.length = pos + front.length
  rw [h.received]
  intro hnil
  refine hne ?_
  change l.client.unread.drop front.length = []
  rw [hnil, List.drop_nil]

/-- A `recv` whose result is not looked at takes what is there of `front`, if
it may take that much at once. -/
theorem At.skip (front : Bytes) (h : l.At (front ++ rest) cut pos) (hf : front ≠ [])
    (hl : front.length ≤ max 1 (limit pos)) :
    (l.skip limit front.length).At rest (cut - front.length) (pos + front.length) := by
  have hpos := List.length_pos_of_ne_nil hf
  by_cases hu : l.client.unread = []
  · have hcut : cut = 0 := by
      have ht := h.unread
      rw [hu, eq_comm, List.take_eq_nil_iff] at ht
      exact ht.resolve_right (by simp [hf])
    rw [skip_spent limit (.inr hu)]
    refine ⟨h.connected, by rw [hu, hcut, Nat.zero_sub, List.take_zero], fun hne => absurd hu hne⟩
  · have hlen : l.client.unread.length = min cut (front.length + rest.length) := by
      rw [h.unread, List.length_take, List.length_append]
    have hpos' := List.length_pos_of_ne_nil hu
    have hn : acceptCount (limit l.client.received) (min front.length l.client.unread.length) =
        min front.length cut := by
      rw [h.received hu, acceptCount]
      omega
    have hs : l.skip limit front.length = l.advance (min front.length cut) := by
      rw [RedisLink.skip, recv_connected limit h.connected hu, hn]
    rw [hs]
    rcases Nat.le_total front.length cut with hle | hle
    · rw [Nat.min_eq_left hle]
      exact h.advance
    · -- the cut is within `front`
      have hnil : (l.advance (min front.length cut)).client.unread = [] := by
        change l.client.unread.drop (min front.length cut) = []
        rw [List.drop_eq_nil_iff, hlen]
        omega
      refine ⟨h.connected, ?_, fun hne => absurd hnil hne⟩
      rw [hnil, Nat.sub_eq_zero_of_le hle, List.take_zero]

/-! ## The readers -/

theorem At.front_le (h : l.At (front ++ rest) cut pos) (hf : front.length ≤ cut) :
    l.client.unread = front ++ rest.take (cut - front.length) := by
  rw [h.unread, List.take_append, List.take_of_length_le hf]

theorem readLineLoop_end : ∀ (fuel : Nat) (l : RedisLink) (acc : Bytes), 13 ∉ l.client.unread →
    ∃ l', readLineLoop limit fuel l acc = ([], l') ∧ l'.connected = false
  | 0, l, _, _ => ⟨l.disconnect, rfl, rfl⟩
  | fuel + 1, l, acc, h => by
    by_cases hs : l.Spent
    · exact ⟨l.disconnect, by rw [readLineLoop, recv_spent limit hs], rfl⟩
    · rw [Spent, not_or, Bool.not_eq_false] at hs
      obtain ⟨b, rest, hu⟩ := List.exists_cons_of_ne_nil hs.2
      rw [hu, List.mem_cons, not_or] at h
      have hrest : (l.advance 1).client.unread = rest := by
        change l.client.unread.drop 1 = rest
        rw [hu]
        rfl
      obtain ⟨l', hl', hc⟩ := readLineLoop_end fuel (l.advance 1) (acc ++ [b]) (by rw [hrest]; exact h.2)
      refine ⟨l', ?_, hc⟩
      rw [readLineLoop, recv_one limit hs.1 hu]
      change (if b = 13 then _ else readLineLoop limit fuel (l.advance 1) (acc ++ [b])) = _
      rw [if_neg (Ne.symm h.1), hl']

theorem readLineLoop_cr : ∀ (line : Bytes) (fuel : Nat) (l : RedisLink) (acc : Bytes), 13 ∉ line →
    l.connected = true → l.client.unread = line ++ 13 :: rest → line.length < fuel →
    readLineLoop limit fuel l acc = (acc ++ line, (l.advance (line.length + 1)).skip limit 1)
  | [], fuel, l, acc, _, hc, h, hf => by
    obtain ⟨fuel, rfl⟩ := Nat.exists_eq_succ_of_ne_zero (Nat.ne_of_gt hf)
    rw [readLineLoop, recv_one limit hc h, List.append_nil]
    rfl
  | b :: line, fuel, l, acc, hl, hc, h, hf => by
    obtain ⟨fuel, rfl⟩ := Nat.exists_eq_succ_of_ne_zero (Nat.ne_of_gt (Nat.zero_lt_of_lt hf))
    rw [List.mem_cons, not_or] at hl
    have hrest : (l.advance 1).client.unread = line ++ 13 :: rest := by
      change l.client.unread.drop 1 = _
      rw [h]
      rfl
    have hadv : (l.advance 1).advance (line.length + 1) = l.advance ((b :: line).length + 1) := by
      rw [advance, advance, advance, RedisClient.advance_advance, List.length_cons, Nat.add_comm 1]
    rw [readLineLoop, recv_one limit hc h]
    change (if b = 13 then _ else readLineLoop limit fuel (l.advance 1) (acc ++ [b])) = _
    rw [if_neg (Ne.symm hl.1),
      readLineLoop_cr line fuel (l.advance 1) (acc ++ [b]) hl.2 hc hrest (Nat.lt_of_succ_lt_succ hf), hadv,
      List.append_assoc, List.singleton_append]

theorem readLine_at {line : Bytes} (hl : 13 ∉ line) (h : l.At (line ++ crlf ++ rest) cut pos) (hcut : line.length < cut) :
    ∃ l', l.readLine limit = (line, l') ∧ l'.At rest (cut - (line.length + 2)) (pos + (line.length + 2)) := by
  have hcr : line ++ crlf ++ rest = (line ++ [13]) ++ ([10] ++ rest) := by simp [crlf, bytes]
  rw [hcr] at h
  have hlen : (line ++ [(13 : UInt8)]).length = line.length + 1 := by rw [List.length_append, List.length_singleton]
  have hu := h.front_le (by omega)
  have hskip := At.skip limit [10] h.advance (by simp) (by simp)
  rw [List.append_assoc, List.singleton_append] at hu
  rw [hlen, List.length_singleton, Nat.sub_sub, Nat.add_assoc] at hskip
  refine ⟨(l.advance (line.length + 1)).skip limit 1, ?_, hskip⟩
  rw [readLine, readLineLoop_cr limit line _ l [] hl h.connected hu, List.nil_append]
  rw [hu, List.length_append, List.length_cons]
  omega

theorem readLine_cut {line : Bytes} (hl : 13 ∉ line) (h : l.At (line ++ rest) cut pos) (hcut : cut ≤ line.length) :
    ∃ l', l.readLine limit = ([], l') ∧ l'.connected = false := by
  refine readLineLoop_end limit _ l [] ?_
  rw [h.unread, List.take_append_of_le_length hcut]
  exact fun hm => hl (List.mem_of_mem_take hm)

theorem readLine_spent (h : l.Spent) : ∃ l', l.readLine limit = ([], l') ∧ l'.connected = false :=
  ⟨l.disconnect, by rw [readLine, readLineLoop, recv_spent limit h], rfl⟩

theorem readBytesLoop_enough (count : Nat) : ∀ (fuel : Nat) (l : RedisLink) (buf : Bytes), l.connected = true →
    count - buf.length ≤ fuel → count - buf.length ≤ l.client.unread.length →
    readBytesLoop limit count fuel l buf =
      (some (buf ++ l.client.unread.take (count - buf.length)), l.advance (count - buf.length))
  | 0, l, buf, _, hf, _ => by
    rw [Nat.le_zero.mp hf, List.take_zero, List.append_nil, readBytesLoop]
    rfl
  | fuel + 1, l, buf, hc, hf, hu => by
    rw [readBytesLoop]
    by_cases hlt : buf.length < count
    · have hne : l.client.unread ≠ [] := by
        intro hn
        rw [hn, List.length_nil] at hu
        omega
      rw [if_pos hlt, recv_connected limit hc hne]
      obtain ⟨n, hn⟩ : ∃ n, n = acceptCount (limit l.client.received) (min (count - buf.length) l.client.unread.length) :=
        ⟨_, rfl⟩
      rw [← hn]
      have hpos : 1 ≤ n ∧ n ≤ count - buf.length := by
        rw [hn, acceptCount]
        omega
      have hrest : count - (buf ++ l.client.unread.take n).length = count - buf.length - n := by
        rw [List.length_append, List.length_take]
        omega
      have hleft : count - (buf ++ l.client.unread.take n).length ≤ (l.advance n).client.unread.length := by
        change _ ≤ (l.client.unread.drop n).length
        rw [hrest, List.length_drop]
        omega
      have hadv : (l.advance n).advance (count - buf.length - n) = l.advance (count - buf.length) := by
        rw [advance, advance, advance, RedisClient.advance_advance, Nat.add_sub_cancel' hpos.2]
      change readBytesLoop limit count fuel (l.advance n) (buf ++ l.client.unread.take n) = _
      rw [readBytesLoop_enough count fuel (l.advance n) _ hc (by omega) hleft, hrest, hadv, List.append_assoc]
      change (some (buf ++ (l.client.unread.take n ++ (l.client.unread.drop n).take _)), _) = _
      rw [← List.drop_take]
      have hsplit := List.take_append_drop n (l.client.unread.take (count - buf.length))
      rw [List.take_take, Nat.min_eq_left hpos.2] at hsplit
      rw [hsplit]
    · rw [if_neg hlt, show count - buf.length = 0 by omega, List.take_zero, List.append_nil]
      rfl

theorem readBytesLoop_short (count : Nat) : ∀ (fuel : Nat) (l : RedisLink) (buf : Bytes),
    l.client.unread.length < count - buf.length → count - buf.length ≤ fuel →
    ∃ l', readBytesLoop limit count fuel l buf = (none, l') ∧ l'.connected = false
  | 0, l, buf, hu, hf => absurd hu (by omega)
  | fuel + 1, l, buf, hu, hf => by
    rw [readBytesLoop, if_pos (by omega)]
    by_cases hs : l.Spent
    · exact ⟨l.disconnect, by rw [recv_spent limit hs], rfl⟩
    · rw [Spent, not_or, Bool.not_eq_false] at hs
      rw [recv_connected limit hs.1 hs.2]
      obtain ⟨n, hn⟩ : ∃ n, n = acceptCount (limit l.client.received) (min (count - buf.length) l.client.unread.length) :=
        ⟨_, rfl⟩
      rw [← hn]
      have hlen := List.length_pos_of_ne_nil hs.2
      have hpos : 1 ≤ n ∧ n ≤ l.client.unread.length := by
        rw [hn, acceptCount]
        omega
      have hgot : (buf ++ l.client.unread.take n).length = buf.length + n := by
        rw [List.length_append, List.length_take, Nat.min_eq_left hpos.2]
      refine readBytesLoop_short count fuel (l.advance n) _ ?_ (by omega)
      change (l.client.unread.drop n).length < _
      rw [List.length_drop, hgot]
      omega

theorem readBytes_at {payload : Bytes} (h : l.At (payload ++ crlf ++ rest) cut pos) (hcut : payload.length ≤ cut) :
    ∃ l', l.readBytes limit payload.length = (payload, l') ∧
      (2 ≤ limit (pos + payload.length) → l'.At rest (cut - (payload.length + 2)) (pos + (payload.length + 2))) := by
  rw [List.append_assoc] at h
  have hu := h.front_le hcut
  refine ⟨(l.advance payload.length).skip limit 2, ?_, ?_⟩
  · rw [readBytes, readBytesLoop_enough limit payload.length payload.length l [] h.connected (Nat.le_refl _)
      (by rw [hu, List.length_append]; exact Nat.le_add_right _ _)]
    simp [hu]
  · intro hl
    have hskip := At.skip limit crlf h.advance (by decide) (by rw [crlf_length]; omega)
    rw [crlf_length, Nat.sub_sub, Nat.add_assoc] at hskip
    exact hskip

theorem readBytes_cut {payload : Bytes} (h : l.At (payload ++ rest) cut pos) (hcut : cut < payload.length) :
    ∃ l', l.readBytes limit payload.length = ([], l') ∧ l'.connected = false := by
  have hu : l.client.unread.length < payload.length - ([] : Bytes).length := by
    rw [h.unread, List.length_take]
    exact Nat.lt_of_le_of_lt (Nat.min_le_left _ _) hcut
  obtain ⟨l', hl', hc⟩ := readBytesLoop_short limit payload.length payload.length l [] hu (Nat.le_refl _)
  exact ⟨l', by rw [readBytes, hl'], hc⟩

/-! ## Strings -/

theorem line_cr {r : Reply} (hr : r.WellFormed) : 13 ∉ r.line := by
  cases r with
  | simple text | error text =>
    rw [Reply.line, List.mem_append, not_or]
    exact ⟨by decide, hr.1⟩
  | bulk payload =>
    rw [Reply.line, List.mem_append, not_or]
    exact ⟨by decide, RedisClient.ofInt_not_cr payload.length⟩
  | nil => decide
  | integer n =>
    rw [Reply.line, List.mem_append, not_or]
    exact ⟨by decide, RedisClient.ofInt_not_cr n⟩

theorem encode_line (r : Reply) : ∃ tail, r.encode = r.line ++ crlf ++ tail := by
  cases r with
  | bulk payload => exact ⟨payload ++ crlf, by rw [Reply.encode, List.append_assoc _ payload]⟩
  | _ => exact ⟨[], by rw [List.append_nil]; rfl⟩

theorem encode_length {r : Reply} (hr : ∀ payload, r ≠ .bulk payload) : r.encode.length = r.line.length + 2 := by
  rw [Reply.encode, List.length_append, crlf_length]
  exact hr

theorem enough_lt_encode (r : Reply) : r.enough < r.encode.length := by
  cases r with
  | bulk payload =>
    rw [RedisClient.bulk_length, Reply.enough]
    omega
  | simple _ | error _ | nil | integer _ =>
    rw [encode_length (by simp)]
    exact Nat.lt_succ_self _

theorem readBulkString_spent (h : l.Spent) :
    ∃ l', l.readBulkString limit = .ok (none, l') ∧ l'.connected = false := by
  obtain ⟨l', hl', hc⟩ := readLine_spent limit h
  exact ⟨l', by rw [readBulkString, hl'], hc⟩

theorem readBulkString_cut {r : Reply} (hr : r.WellFormed) (h : l.At (r.encode ++ rest) cut pos)
    (hcut : cut ≤ r.line.length) : ∃ l', l.readBulkString limit = .ok (none, l') ∧ l'.connected = false := by
  obtain ⟨tail, ht⟩ := encode_line r
  rw [ht, List.append_assoc, List.append_assoc] at h
  obtain ⟨l', hl', hc⟩ := readLine_cut limit (line_cr hr) h hcut
  exact ⟨l', by rw [readBulkString, hl'], hc⟩

theorem readBulkString_line {payload : Bytes} (hp : payload.length < 2 ^ 31)
    (h : l.At ((Reply.bulk payload).encode ++ rest) cut pos) (hcut : (Reply.bulk payload).line.length < cut) :
    ∃ l' : RedisLink, l.readBulkString limit =
        .ok (some (l'.readBytes limit payload.length).1, (l'.readBytes limit payload.length).2) ∧
      l'.At (payload ++ crlf ++ rest) (cut - ((Reply.bulk payload).line.length + 2))
        (pos + ((Reply.bulk payload).line.length + 2)) := by
  have hs : (Reply.bulk payload).encode ++ rest = (Reply.bulk payload).line ++ crlf ++ (payload ++ crlf ++ rest) := by
    rw [Reply.encode, List.append_assoc _ payload, List.append_assoc]
  rw [hs] at h
  obtain ⟨l', hl', hat⟩ := readLine_at limit (line_cr (r := .bulk payload) hp) h hcut
  refine ⟨l', ?_, hat⟩
  have hlen : stoi (Numeral.ofNat payload.length) = .ok (payload.length : Int) :=
    stoi_ofInt (i := payload.length) (by omega)
  rw [readBulkString, hl']
  change (if (36 : UInt8) = 36 then (do
      let len ← stoi (Numeral.ofNat payload.length)
      if len < 0 then .ok (none, l')
      else .ok (some (l'.readBytes limit len.toNat).1, (l'.readBytes limit len.toNat).2)) else _) = _
  rw [if_pos rfl, hlen]
  change (if (payload.length : Int) < 0 then Except.ok (none, l')
    else .ok (some (l'.readBytes limit payload.length).1, (l'.readBytes limit payload.length).2)) = _
  rw [if_neg (by omega)]

theorem readBulkString_torn {payload : Bytes} (hp : payload.length < 2 ^ 31)
    (h : l.At ((Reply.bulk payload).encode ++ rest) cut pos) (hcut : (Reply.bulk payload).line.length < cut)
    (hlt : cut < (Reply.bulk payload).enough) :
    ∃ l', l.readBulkString limit = .ok (some [], l') ∧ l'.Spent := by
  obtain ⟨m, hm, hat⟩ := readBulkString_line limit hp h hcut
  rw [Reply.enough] at hlt
  by_cases hnil : payload = []
  · -- nothing is asked for, and nothing is found where the CRLF should be
    subst hnil
    have hm0 : m.Spent := by
      rw [Nat.sub_eq_zero_of_le (by simpa using Nat.le_of_lt hlt)] at hat
      exact hat.spent
    refine ⟨m, ?_, hm0⟩
    rw [hm]
    change Except.ok (some [], m.skip limit 2) = _
    rw [skip_spent limit hm0]
  · have hpos := List.length_pos_of_ne_nil hnil
    rw [List.append_assoc] at hat
    obtain ⟨l', hl', hc⟩ := readBytes_cut limit hat (by omega)
    exact ⟨l', by rw [hm, hl'], .inl hc⟩

theorem readBulkString_at {r : Reply} (hr : r.WellFormed) (h : l.At (r.encode ++ rest) cut pos) (hcut : r.enough ≤ cut) :
    ∃ l', l.readBulkString limit = .ok (r.value, l') ∧ (RedisClient.WholeEnd limit pos r →
      l'.At rest (cut - r.encode.length) (pos + r.encode.length)) := by
  have hlines := @line_cr r hr
  cases r with
  | bulk payload =>
    rw [Reply.enough] at hcut
    obtain ⟨m, hm, hat⟩ := readBulkString_line limit hr h (by omega)
    obtain ⟨l', hl', hc⟩ := readBytes_at limit hat (by omega)
    refine ⟨l', by rw [hm, hl']; rfl, fun hw => ?_⟩
    have hb := RedisClient.bulk_length payload
    have hpos : pos + (Reply.bulk payload).encode.length - 2 =
        pos + ((Reply.bulk payload).line.length + 2) + payload.length := by omega
    have hlim := hw.2
    rw [hpos] at hlim
    have hend := hc hlim
    rw [Nat.sub_sub, Nat.add_assoc pos] at hend
    rw [hb, Nat.add_assoc _ payload.length 2]
    exact hend
  | simple _ | error _ | nil | integer _ =>
    obtain ⟨l', hl', hat⟩ := readLine_at limit hlines h hcut
    refine ⟨l', by rw [readBulkString, hl']; rfl, fun _ => ?_⟩
    rw [encode_length (by simp)]
    exact hat

/-! ## Arrays -/

theorem readElements_spent : ∀ (n : Nat) {l : RedisLink}, l.Spent →
    ∃ arr l', readElements limit n l = .ok (arr, l') ∧ arr.length = n ∧ l'.Spent
  | 0, l, h => ⟨[], l, rfl, rfl, h⟩
  | n + 1, l, h => by
    obtain ⟨m, hm, hc⟩ := readBulkString_spent limit h
    obtain ⟨arr, l', hl', hlen, hs⟩ := readElements_spent n (l := m) (.inl hc)
    refine ⟨[] :: arr, l', ?_, by rw [List.length_cons, hlen], hs⟩
    rw [readElements, hm]
    change (readElements limit n m >>= fun p => Except.ok (([] : Bytes) :: p.1, p.2)) = _
    rw [hl']
    rfl

theorem readElements_cons {v : Option Bytes} {m l' : RedisLink} {arr : List Bytes} {n : Nat}
    (hm : l.readBulkString limit = .ok (v, m)) (hl' : readElements limit n m = .ok (arr, l')) :
    readElements limit (n + 1) l = .ok (v.getD [] :: arr, l') := by
  rw [readElements, hm]
  change (readElements limit n m >>= fun p => Except.ok (v.getD [] :: p.1, p.2)) = _
  rw [hl']
  rfl

theorem readBulkString_broken {r : Reply} (hr : r.WellFormed) (h : l.At (r.encode ++ rest) cut pos)
    (hcut : cut < r.enough) : ∃ v l', l.readBulkString limit = .ok (v, l') ∧ v.getD [] = [] ∧ l'.Spent := by
  rcases Nat.lt_or_ge r.line.length cut with hlt | hle
  · cases r with
    | bulk payload =>
      obtain ⟨l', hl', hs⟩ := readBulkString_torn limit hr h hlt hcut
      exact ⟨some [], l', hl', rfl, hs⟩
    | simple _ | error _ | nil | integer _ => exact absurd hcut (Nat.not_lt.mpr hlt)
  · obtain ⟨l', hl', hc⟩ := readBulkString_cut limit hr h hle
    exact ⟨none, l', hl', rfl, .inl hc⟩

theorem readElements_whole : ∀ (rs : List Reply) {l : RedisLink} {cut pos : Nat}, EndsWhole limit pos rs →
    l.At (rs.flatMap Reply.encode ++ rest) cut pos → (rs.flatMap Reply.encode).length ≤ cut →
    ∃ l', readElements limit rs.length l = .ok (rs.map Reply.text, l') ∧
      l'.At rest (cut - (rs.flatMap Reply.encode).length) (pos + (rs.flatMap Reply.encode).length)
  | [], l, _, _, _, h, _ => ⟨l, rfl, h⟩
  | r :: rs, l, cut, pos, hw, h, hcut => by
    rw [List.flatMap_cons, List.length_append] at hcut
    rw [List.flatMap_cons, List.append_assoc] at h
    have he := enough_lt_encode r
    obtain ⟨m, hm, hat⟩ := readBulkString_at limit hw.1.1 h (by omega)
    obtain ⟨l', hl', hend⟩ := readElements_whole rs hw.2 (hat hw.1.2) (by omega)
    refine ⟨l', readElements_cons limit hm hl', ?_⟩
    rw [List.flatMap_cons, List.length_append, ← Nat.sub_sub, ← Nat.add_assoc]
    exact hend

theorem readElements_torn : ∀ (rs : List Reply) {r : Reply} {l : RedisLink} {cut pos : Nat},
    EndsWhole limit pos (r :: rs) → l.At ((r :: rs).flatMap Reply.encode ++ rest) cut pos →
    cut < ((r :: rs).flatMap Reply.encode).length →
    ∃ v tail l', readElements limit (rs.length + 1) l = .ok (v :: tail, l') ∧ tail.length = rs.length ∧ l'.Spent ∧
      (r.enough ≤ cut ∧ v = r.text ∨ cut < r.enough ∧ v = [])
  | rs, r, l, cut, pos, hw, h, hcut => by
    rw [List.flatMap_cons, List.length_append] at hcut
    rw [List.flatMap_cons, List.append_assoc] at h
    rcases Nat.lt_or_ge cut r.enough with hlt | hle
    · obtain ⟨v, m, hm, hv, hs⟩ := readBulkString_broken limit hw.1.1 h hlt
      obtain ⟨tail, l', hl', hlen, hend⟩ := readElements_spent limit rs.length hs
      exact ⟨_, tail, l', readElements_cons limit hm hl', hlen, hend, .inr ⟨hlt, hv⟩⟩
    · obtain ⟨m, hm, hat⟩ := readBulkString_at limit hw.1.1 h hle
      have hat := hat hw.1.2
      have hrest : ∃ tail l', readElements limit rs.length m = .ok (tail, l') ∧ tail.length = rs.length ∧ l'.Spent := by
        rcases Nat.lt_or_ge cut r.encode.length with hc | hc
        · -- only the end of the text is missing
          rw [Nat.sub_eq_zero_of_le (Nat.le_of_lt hc)] at hat
          exact readElements_spent limit rs.length hat.spent
        · cases rs with
          | nil => exact absurd hcut (Nat.not_lt.mpr (by simpa using hc))
          | cons r' rs =>
            obtain ⟨v, tail, l', hl', hlen, hend, _⟩ := readElements_torn rs hw.2 hat (by omega)
            exact ⟨v :: tail, l', hl', by rw [List.length_cons, hlen, List.length_cons], hend⟩
      obtain ⟨tail, l', hl', hlen, hend⟩ := hrest
      exact ⟨_, tail, l', readElements_cons limit hm hl', hlen, hend, .inl ⟨hle, rfl⟩⟩

theorem readArray_spent (h : l.Spent) : ∃ l', l.readArray limit = .ok ([], l') ∧ l'.connected = false := by
  obtain ⟨l', hl', hc⟩ := readLine_spent limit h
  exact ⟨l', by rw [readArray, hl'], hc⟩

theorem header_cr (p : Push) : 13 ∉ p.header := by
  rw [Push.header, List.mem_append, not_or]
  exact ⟨by decide, RedisClient.ofInt_not_cr p.elements.length⟩

theorem elements_length_le (p : Push) : p.elements.length ≤ 4 := by cases p <;> simp [Push.elements, Push.args]

theorem encode_push_length (p : Push) :
    p.encode.length = p.header.length + 2 + (p.elements.flatMap Reply.encode).length := by
  rw [Push.encode, List.length_append, List.length_append, crlf_length]

theorem readArray_cut {p : Push} (h : l.At (p.encode ++ rest) cut pos) (hcut : cut ≤ p.header.length) :
    ∃ l', l.readArray limit = .ok ([], l') ∧ l'.connected = false := by
  rw [Push.encode, List.append_assoc, List.append_assoc] at h
  obtain ⟨l', hl', hc⟩ := readLine_cut limit (header_cr p) h hcut
  exact ⟨l', by rw [readArray, hl'], hc⟩

theorem readArray_header {p : Push} (h : l.At (p.encode ++ rest) cut pos) (hcut : p.header.length < cut) :
    ∃ l', l.readArray limit = readElements limit p.elements.length l' ∧
      l'.At (p.elements.flatMap Reply.encode ++ rest) (cut - (p.header.length + 2)) (pos + (p.header.length + 2)) := by
  rw [Push.encode, List.append_assoc] at h
  obtain ⟨l', hl', hat⟩ := readLine_at limit (header_cr p) h hcut
  refine ⟨l', ?_, hat⟩
  have hle := elements_length_le p
  have hlen : stoi (Numeral.ofNat p.elements.length) = .ok (p.elements.length : Int) :=
    stoi_ofInt (i := p.elements.length) (by omega)
  rw [readArray, hl']
  change (do let count ← stoi (Numeral.ofNat p.elements.length); readElements limit count.toNat l') = _
  rw [hlen]
  rfl

theorem readArray_whole {p : Push} (hw : EndsWhole limit (pos + (p.header.length + 2)) p.elements)
    (h : l.At (p.encode ++ rest) cut pos) (hcut : p.encode.length ≤ cut) :
    ∃ l', l.readArray limit = .ok (p.elements.map Reply.text, l') ∧
      l'.At rest (cut - p.encode.length) (pos + p.encode.length) := by
  rw [encode_push_length] at hcut
  obtain ⟨m, hm, hat⟩ := readArray_header limit h (by omega)
  obtain ⟨l', hl', hend⟩ := readElements_whole limit p.elements hw hat (by omega)
  refine ⟨l', by rw [hm, hl'], ?_⟩
  rw [encode_push_length, ← Nat.sub_sub, ← Nat.add_assoc]
  exact hend

/-- An array that is cut is as long as a whole one, or empty; it starts with
its kind if that came whole, and with an empty text if not. -/
theorem readArray_torn {p : Push} (hw : EndsWhole limit (pos + (p.header.length + 2)) p.elements)
    (h : l.At (p.encode ++ rest) cut pos) (hcut : cut < p.encode.length) :
    ∃ arr l', l.readArray limit = .ok (arr, l') ∧ l'.Spent ∧
      (p.enough ≤ cut ∧ (∃ tail, arr = p.kind :: tail ∧ tail.length = p.args.length) ∨
        cut < p.enough ∧ (arr = [] ∨ ∃ tail, arr = [] :: tail)) := by
  rw [Push.enough]
  rcases Nat.lt_or_ge p.header.length cut with hlt | hle
  · rw [encode_push_length] at hcut
    obtain ⟨m, hm, hat⟩ := readArray_header limit h hlt
    have hpos : 2 ≤ (Reply.bulk p.kind).enough := by
      rw [Reply.enough]
      omega
    rcases Nat.lt_or_ge cut (p.header.length + 2) with hcr | hcr
    · -- the LF of the first line is missing
      rw [Nat.sub_eq_zero_of_le (Nat.le_of_lt hcr)] at hat
      obtain ⟨d, hd, hc⟩ := readBulkString_spent limit hat.spent
      obtain ⟨tail, l', hl', _, hend⟩ := readElements_spent limit p.args.length (l := d) (.inl hc)
      exact ⟨_, l', by rw [hm]; exact readElements_cons limit hd hl', hend, .inr ⟨by omega, .inr ⟨tail, rfl⟩⟩⟩
    · obtain ⟨v, tail, l', hl', hlen, hend, hv⟩ := readElements_torn limit p.args hw hat (by
        change _ < (p.elements.flatMap Reply.encode).length
        omega)
      refine ⟨v :: tail, l', by rw [hm]; exact hl', hend, ?_⟩
      rcases hv with ⟨hle, rfl⟩ | ⟨hlt, rfl⟩
      · exact .inl ⟨by omega, tail, rfl, hlen⟩
      · exact .inr ⟨by omega, .inr ⟨tail, rfl⟩⟩
  · obtain ⟨l', hl', hc⟩ := readArray_cut limit h hle
    exact ⟨[], l', hl', .inl hc, .inr ⟨by omega, .inl rfl⟩⟩

/-! ## Subscriptions -/

theorem pick_whole (k : Listening) (p : Push) : k.pick (p.elements.map Reply.text) = k.callFor p := by
  cases k <;> cases p <;> rfl

theorem message_iff (kind a b : Bytes) : (message [kind, a, b]).toList = [] ↔ kind ≠ bytes "message" := by
  rw [message]
  split <;> simp_all

theorem pmessage_iff (kind a b c : Bytes) :
    (RedisClient.pmessage [kind, a, b, c]).toList = [] ↔ kind ≠ bytes "pmessage" := by
  rw [RedisClient.pmessage]
  split <;> simp_all

theorem pick_kind {k : Listening} {p : Push} {tail : List Bytes} (ht : tail.length = p.args.length) :
    (k.pick (p.kind :: tail)).toList = [] ↔ p.kind ≠ k.kind := by
  cases p with
  | subscribed _ _ | psubscribed _ _ | message _ _ =>
    obtain ⟨a, b, rfl⟩ := List.length_eq_two.mp ht
    cases k with
    | message =>
      simp only [Listening.pick, Listening.kind]
      exact message_iff _ a b
    | pmessage => exact iff_of_true rfl (by simp only [Push.kind, Listening.kind]; decide)
  | pmessage _ _ _ =>
    obtain ⟨a, b, c, rfl⟩ := List.length_eq_three.mp ht
    cases k with
    | message => exact iff_of_true rfl (by simp only [Push.kind, Listening.kind]; decide)
    | pmessage =>
      simp only [Listening.pick, Listening.kind]
      exact pmessage_iff _ a b c

theorem pick_empty (k : Listening) (tail : List Bytes) : k.pick [] = none ∧ k.pick ([] :: tail) = none := by
  refine ⟨by cases k <;> rfl, ?_⟩
  match tail with
  | [] | [_] | [_, _] | [_, _, _] | _ :: _ :: _ :: _ :: _ => cases k <;> rfl

/-- **What a cut array does.** It makes a call exactly when it is of the kind
that is listened for and was cut behind the text of it. -/
theorem readArray_quiet {p : Push} (hw : EndsWhole limit (pos + (p.header.length + 2)) p.elements)
    (h : l.At (p.encode ++ rest) cut pos) (hcut : cut < p.encode.length) (k : Listening) :
    ∃ arr l', l.readArray limit = .ok (arr, l') ∧ l'.Spent ∧ ((k.pick arr).toList = [] ↔ k.Quiet (some (p, cut))) := by
  obtain ⟨arr, l', hl', hs, ⟨hle, tail, rfl, ht⟩ | ⟨hlt, hv⟩⟩ := readArray_torn limit hw h hcut
  · refine ⟨_, l', hl', hs, ?_⟩
    rw [pick_kind ht]
    exact ⟨fun hne he => absurd he hne, fun hq he => absurd (hq he) (Nat.not_lt.mpr hle)⟩
  · refine ⟨arr, l', hl', hs, iff_of_true ?_ fun _ => hlt⟩
    rcases hv with rfl | ⟨tail, rfl⟩
    · rw [(pick_empty k []).1]
      rfl
    · rw [(pick_empty k tail).2]
      rfl

theorem listenLoop_closed {pick : List Bytes → Option (Bytes × Bytes)} (h : l.connected = false)
    (calls : List (Bytes × Bytes)) :
    ∀ fuel, listenLoop limit pick fuel l calls = ⟨calls, .ok l⟩
  | 0 => rfl
  | fuel + 1 => by rw [listenLoop, if_neg (by rw [h]; decide)]

theorem listenLoop_spent (k : Listening) (fuel : Nat) (h : l.Spent) (calls : List (Bytes × Bytes)) :
    ∃ l', listenLoop limit k.pick (fuel + 1) l calls = ⟨calls, .ok l'⟩ ∧ l'.connected = false := by
  by_cases hc : l.connected = true
  · obtain ⟨l', hl', hc'⟩ := readArray_spent limit h
    refine ⟨l', ?_, hc'⟩
    rw [listenLoop, if_pos hc]
    simp only [hl', (pick_empty k []).1, Option.toList_none, List.append_nil]
    exact listenLoop_closed limit hc' calls fuel
  · exact ⟨l, listenLoop_closed limit (Bool.not_eq_true _ ▸ hc) calls _, Bool.not_eq_true _ ▸ hc⟩

def stream (ps : List Push) : Bytes := ps.flatMap Push.encode

theorem listenLoop_at (k : Listening) : ∀ (ps : List Push) {l : RedisLink} {cut pos : Nat} (fuel : Nat)
    (calls : List (Bytes × Bytes)), PushesWhole limit pos ps → l.At (stream ps) cut pos →
    l.client.unread.length < fuel →
    ∃ extra l', listenLoop limit k.pick fuel l calls =
        ⟨calls ++ (wholly ps cut).filterMap k.callFor ++ extra, .ok l'⟩ ∧ l'.connected = false ∧
      (extra = [] ↔ k.Quiet (torn ps cut))
  | [], l, cut, pos, fuel + 1, calls, _, h, _ => by
    have hs : l.Spent := .inr (by rw [h.unread]; exact List.take_nil)
    obtain ⟨l', hl', hc⟩ := listenLoop_spent limit k fuel hs calls
    exact ⟨[], l', by simpa [wholly] using hl', hc, iff_of_true rfl trivial⟩
  | p :: ps, l, cut, pos, fuel + 1, calls, hw, h, hf => by
    have hlen : l.client.unread.length = min cut (p.encode ++ stream ps).length := by
      rw [h.unread, List.length_take]
      rfl
    have hone : 2 ≤ p.encode.length := by
      rw [encode_push_length]
      omega
    rw [List.length_append] at hlen
    rcases Nat.lt_or_ge cut p.encode.length with hlt | hle
    · rw [wholly, torn, if_neg (Nat.not_le.mpr hlt), if_neg (Nat.not_le.mpr hlt)]
      by_cases hs : l.Spent
      · have hcut : l.client.unread = [] := hs.resolve_left (by rw [h.connected]; decide)
        obtain ⟨l', hl', hc⟩ := listenLoop_spent limit k fuel hs calls
        refine ⟨[], l', by simpa using hl', hc, iff_of_true rfl fun _ => ?_⟩
        rw [hcut, List.length_nil] at hlen
        rw [Push.enough]
        omega
      · obtain ⟨arr, m, hm, hms, hq⟩ := readArray_quiet limit hw.1 h hlt k
        obtain ⟨fuel, rfl⟩ : ∃ n, fuel = n + 1 := by
          have hne : l.client.unread ≠ [] := fun hn => hs (.inr hn)
          have hpos := List.length_pos_of_ne_nil hne
          exact Nat.exists_eq_succ_of_ne_zero (by omega)
        obtain ⟨l', hl', hc⟩ :=
          listenLoop_spent limit k fuel hms (calls ++ (k.pick arr).toList)
        refine ⟨(k.pick arr).toList, l', ?_, hc, hq⟩
        rw [listenLoop, if_pos h.connected]
        simpa [hm] using hl'
    · rw [wholly, torn, if_pos hle, if_pos hle]
      have hfront : l.At (p.encode ++ stream ps) cut pos := h
      obtain ⟨m, hm, hat⟩ := readArray_whole limit hw.1 hfront hle
      have hless : m.client.unread.length < fuel := by
        rw [hat.unread, List.length_take]
        omega
      obtain ⟨extra, l', hl', hc, hq⟩ :=
        listenLoop_at k ps fuel (calls ++ (k.callFor p).toList) hw.2 hat hless
      refine ⟨extra, l', ?_, hc, hq⟩
      rw [listenLoop, if_pos h.connected]
      simp only [hm, pick_whole]
      rw [hl']
      cases hcall : k.callFor p <;> simp [hcall]

theorem readConfirmations_spent : ∀ (n : Nat) {l : RedisLink}, l.Spent →
    ∃ l', readConfirmations limit n l = .ok l' ∧ l'.Spent
  | 0, l, h => ⟨l, rfl, h⟩
  | n + 1, l, h => by
    obtain ⟨m, hm, hc⟩ := readArray_spent limit h
    obtain ⟨l', hl', hs⟩ := readConfirmations_spent n (l := m) (.inl hc)
    exact ⟨l', by rw [readConfirmations, hm]; exact hl', hs⟩

theorem readConfirmations_at : ∀ (n : Nat) {ps : List Push} {l : RedisLink} {cut pos : Nat},
    PushesWhole limit pos ps → l.At (stream ps) cut pos →
    ∃ l', readConfirmations limit n l = .ok l' ∧ ((wholly ps cut).length < n ∧ l'.Spent ∨
      n ≤ (wholly ps cut).length ∧ ∃ cut' pos', l'.At (stream (ps.drop n)) cut' pos' ∧
        PushesWhole limit pos' (ps.drop n) ∧ wholly (ps.drop n) cut' = (wholly ps cut).drop n ∧
        torn (ps.drop n) cut' = torn ps cut)
  | 0, ps, l, cut, pos, hw, h => ⟨l, rfl, .inr ⟨Nat.zero_le _, cut, pos, h, hw, rfl, rfl⟩⟩
  | n + 1, [], l, cut, pos, _, h => by
    obtain ⟨l', hl', hs⟩ := readConfirmations_spent limit (n + 1) (l := l) (.inr (by
      rw [h.unread]
      exact List.take_nil))
    exact ⟨l', hl', .inl ⟨Nat.succ_pos n, hs⟩⟩
  | n + 1, p :: ps, l, cut, pos, hw, h => by
    rcases Nat.lt_or_ge cut p.encode.length with hlt | hle
    · obtain ⟨arr, m, hm, hms, _⟩ := readArray_torn limit hw.1 h hlt
      obtain ⟨l', hl', hs⟩ := readConfirmations_spent limit n hms
      refine ⟨l', by rw [readConfirmations, hm]; exact hl', .inl ⟨?_, hs⟩⟩
      rw [wholly, if_neg (Nat.not_le.mpr hlt)]
      exact Nat.succ_pos n
    · obtain ⟨m, hm, hat⟩ := readArray_whole limit hw.1 h hle
      obtain ⟨l', hl', hend⟩ := readConfirmations_at n hw.2 hat
      refine ⟨l', by rw [readConfirmations, hm]; exact hl', ?_⟩
      rw [wholly, torn, if_pos hle, if_pos hle, List.length_cons]
      simpa only [Nat.add_lt_add_iff_right, Nat.add_le_add_iff_right, List.drop_succ_cons] using hend

theorem listen_at {k : Listening} {ps : List Push} (hw : PushesWhole limit pos ps) (h : l.At (stream ps) cut pos)
    (hwrite : l.writable = true) (args : List Bytes) (n : Nat) :
    ∃ extra l', l.listen limit k.pick args n =
        ⟨((wholly ps cut).drop n).filterMap k.callFor ++ extra, .ok l'⟩ ∧ l'.connected = false ∧
      (extra = [] ↔ (wholly ps cut).length < n ∨ k.Quiet (torn ps cut)) := by
  have hsend : (l.sendCommand args).At (stream ps) cut pos := by
    rw [sendCommand, if_pos (by rw [h.connected, hwrite]; rfl)]
    exact ⟨h.connected, h.unread, h.received⟩
  obtain ⟨m, hm, ⟨hlt, hs⟩ | ⟨hle, cut', pos', hat, hw', hwhole, htorn⟩⟩ :=
    readConfirmations_at limit n hw hsend
  · obtain ⟨l', hl', hc⟩ := listenLoop_spent limit k m.client.unread.length hs []
    refine ⟨[], l', ?_, hc, iff_of_true rfl (.inl hlt)⟩
    rw [listen, hm, List.drop_of_length_le (Nat.le_of_lt hlt)]
    exact hl'
  · obtain ⟨extra, l', hl', hc, hq⟩ :=
      listenLoop_at limit k (ps.drop n) (m.client.unread.length + 1) [] hw' hat (Nat.lt_succ_self _)
    refine ⟨extra, l', ?_, hc, ?_⟩
    · rw [listen, hm]
      simp only [hl', List.nil_append, hwhole]
    · rw [hq, htorn, or_iff_right (Nat.not_lt.mpr hle)]

theorem listen_refused {k : Listening} (h : (l.connected && l.writable) = false) (args : List Bytes) (n : Nat) :
    (l.listen limit k.pick args n).calls = [] := by
  have hsend : (l.sendCommand args).Spent := by
    rw [sendCommand, if_neg (by rw [h]; decide)]
    exact .inl rfl
  obtain ⟨m, hm, hs⟩ := readConfirmations_spent limit n hsend
  obtain ⟨l', hl', _⟩ := listenLoop_spent limit k m.client.unread.length hs []
  simp only [listen, hm, hl']

/-- The connection as the peer leaves it: with `s` to read, and the end behind. -/
def breaks (l : RedisLink) (s : Bytes) : RedisLink := { l with client := { l.client with unread := s } }

theorem breaks_at (hc : l.connected = true) (s : Bytes) (cut : Nat) :
    (l.breaks (s.take cut)).At s cut l.client.received := ⟨hc, rfl, fun _ => rfl⟩

end RedisLink

/-! ## Every cut -/

/-- A command and the stream of its replies, which is cut behind `cut` bytes. -/
inductive Outage where
  | get (key : Bytes) (reply : Reply) (cut : Nat)
  | subscribe (channel : Bytes) (ps : List Push) (cut : Nat)
  | psubscribe (pattern : Bytes) (ps : List Push) (cut : Nat)
  | subscribeMultiple (channels : List Bytes) (ps : List Push) (cut : Nat)

namespace Outage

open RedisLink

/-- The calls have arrays of their own, in order, that came whole behind the confirmations. -/
def CallsFor (k : Listening) (n : Nat) (ps : List Push) (cut : Nat) (calls : List (Bytes × Bytes)) : Prop :=
  calls.Sublist (((wholly ps cut).drop n).filterMap k.callFor)

def Honest (limit : Nat → Nat) (l : RedisLink) : Outage → Prop
  | get key reply cut => ∃ v l', (l.breaks (reply.encode.take cut)).get limit key = .ok (v, l') ∧
      ∀ w, v = some w → reply.encode.length ≤ cut ∧ reply.value = some w
  | subscribe channel ps cut =>
      CallsFor .message 1 ps cut ((l.breaks ((stream ps).take cut)).subscribe limit channel).calls
  | psubscribe pattern ps cut =>
      CallsFor .pmessage 1 ps cut ((l.breaks ((stream ps).take cut)).psubscribe limit pattern).calls
  | subscribeMultiple channels ps cut =>
      CallsFor .message channels.length ps cut
        ((l.breaks ((stream ps).take cut)).subscribeMultiple limit channels).calls

/-- A subscription goes out of step, with or without a cut, when a `recv`
behind a payload returns half of a CRLF. -/
def InStep (limit : Nat → Nat) (pos : Nat) : Outage → Prop
  | get _ reply _ => reply.WellFormed
  | subscribe _ ps _ | psubscribe _ ps _ | subscribeMultiple _ ps _ => PushesWhole limit pos ps

def Safe (l : RedisLink) : Outage → Prop
  | get _ reply cut => (l.connected && l.writable) = false ∨ reply.value = none ∨ reply.encode.length ≤ cut ∨
      cut ≤ reply.line.length
  | subscribe _ ps cut => (l.connected && l.writable) = false ∨ (wholly ps cut).length < 1 ∨
      Listening.message.Quiet (torn ps cut)
  | psubscribe _ ps cut => (l.connected && l.writable) = false ∨ (wholly ps cut).length < 1 ∨
      Listening.pmessage.Quiet (torn ps cut)
  | subscribeMultiple channels ps cut => (l.connected && l.writable) = false ∨
      (wholly ps cut).length < channels.length ∨ Listening.message.Quiet (torn ps cut)

end Outage

namespace RedisLink

variable {limit : Nat → Nat} {l : RedisLink}

theorem callsFor_iff {k : Listening} {ps : List Push} {cut : Nat} (hw : PushesWhole limit l.client.received ps)
    (args : List Bytes) (n : Nat) :
    Outage.CallsFor k n ps cut ((l.breaks ((stream ps).take cut)).listen limit k.pick args n).calls ↔
      (l.connected && l.writable) = false ∨ (wholly ps cut).length < n ∨ k.Quiet (torn ps cut) := by
  by_cases hc : (l.connected && l.writable) = false
  · rw [listen_refused limit (l := l.breaks ((stream ps).take cut)) hc]
    exact iff_of_true (List.nil_sublist _) (.inl hc)
  · rw [Bool.not_eq_false, Bool.and_eq_true] at hc
    obtain ⟨extra, l', hl', _, hq⟩ := listen_at limit (k := k) hw (breaks_at hc.1 (stream ps) cut) hc.2 args n
    rw [hl', hc.1, hc.2, or_iff_right (by decide), ← hq]
    constructor
    · intro h
      have hlen := h.length_le
      rw [List.length_append] at hlen
      exact List.eq_nil_of_length_eq_zero (by omega)
    · intro h
      rw [h, Outage.CallsFor, List.append_nil]

theorem honest_of_get {key : Bytes} {reply : Reply} {cut : Nat} {v : Option Bytes} {d : RedisLink}
    (h : (l.breaks (reply.encode.take cut)).get limit key = .ok (v, d)) :
    (Outage.get key reply cut).Honest limit l ↔ ∀ w, v = some w → reply.encode.length ≤ cut ∧ reply.value = some w := by
  constructor
  · intro ⟨v', d', hv', hw⟩
    rw [h] at hv'
    cases hv'
    exact hw
  · exact fun hw => ⟨v, d, h, hw⟩

theorem get_honest_iff {reply : Reply} (hr : reply.WellFormed) (key : Bytes) (cut : Nat) :
    (Outage.get key reply cut).Honest limit l ↔ (Outage.get key reply cut).Safe l := by
  by_cases hc : (l.connected && l.writable) = false
  · have hsend : ((l.breaks (reply.encode.take cut)).sendCommand [bytes "GET", key]).Spent := by
      rw [sendCommand, if_neg (by rw [Bool.not_eq_true]; exact hc)]
      exact .inl rfl
    obtain ⟨d, hd, _⟩ := readBulkString_spent limit hsend
    rw [honest_of_get hd]
    exact iff_of_true (by simp) (.inl hc)
  · have hsafe : (Outage.get key reply cut).Safe l ↔
        reply.value = none ∨ reply.encode.length ≤ cut ∨ cut ≤ reply.line.length := or_iff_right hc
    rw [hsafe]
    rw [Bool.not_eq_false, Bool.and_eq_true] at hc
    have hat : ((l.breaks (reply.encode.take cut)).sendCommand [bytes "GET", key]).At (reply.encode ++ []) cut
        l.client.received := by
      have hsend : ((l.breaks (reply.encode.take cut)).connected && (l.breaks (reply.encode.take cut)).writable) = true := by
        change (l.connected && l.writable) = true
        rw [hc.1, hc.2]
        rfl
      rw [sendCommand, if_pos hsend, List.append_nil]
      exact ⟨hc.1, rfl, fun _ => rfl⟩
    have hlt := enough_lt_encode reply
    rcases Nat.lt_or_ge reply.line.length cut with hline | hline
    · rcases Nat.lt_or_ge cut reply.enough with hcut | hcut
      · -- a length without its payload
        cases reply with
        | bulk payload =>
          obtain ⟨d, hd, _⟩ := readBulkString_torn limit hr hat hline hcut
          rw [honest_of_get hd]
          refine iff_of_false (fun h => ?_) (fun h => ?_)
          · exact absurd (h [] rfl).1 (by omega)
          · rcases h with h | h | h
            · cases h
            · omega
            · omega
        | simple _ | error _ | nil | integer _ => exact absurd hcut (Nat.not_lt.mpr hline)
      · obtain ⟨d, hd, _⟩ := readBulkString_at limit hr hat hcut
        rw [honest_of_get hd]
        constructor
        · intro h
          cases hv : reply.value with
          | none => exact .inl rfl
          | some w => exact .inr (.inl (h w hv).1)
        · rintro (h | h | h) w hw
          · rw [h] at hw
            cases hw
          · exact ⟨h, hw⟩
          · exact absurd h (Nat.not_le.mpr hline)
    · obtain ⟨d, hd, _⟩ := readBulkString_cut limit hr hat hline
      rw [honest_of_get hd]
      exact iff_of_true (by simp) (.inr (.inr hline))

end RedisLink

open RedisLink in
/-- **Cut streams.** What `get` returns, or a subscription calls back with, had
been received whole if and only if the first line of the reply to `get` is cut
in front of its CR, or the reply has no value; respectively if the array that
is cut is of another kind, cut in the text of its kind, or a confirmation. -/
theorem cut_stream_iff (limit : Nat → Nat) (l : RedisLink) (o : Outage) (h : o.InStep limit l.client.received) :
    o.Honest limit l ↔ o.Safe l := by
  cases o with
  | get key reply cut => exact get_honest_iff h key cut
  | subscribe channel ps cut => exact callsFor_iff (k := .message) h _ 1
  | psubscribe pattern ps cut => exact callsFor_iff (k := .pmessage) h _ 1
  | subscribeMultiple channels ps cut => exact callsFor_iff (k := .message) h _ channels.length

/-- The first message came whole, the second up to the middle of its kind. -/
theorem cut_stream_second :
    let ps : List Push := [.subscribed [99] 1, .message [99] [104, 105], .message [99] [104, 111]]
    (Outage.subscribe [99] ps 71).Honest (fun _ => 4096) {} := by
  intro ps
  refine (cut_stream_iff (fun _ => 4096) {} (.subscribe [99] ps 71) ?_).mpr (.inr (.inr ?_))
  · simp [Outage.InStep, PushesWhole, EndsWhole, ps, Push.elements, Push.args, Reply.WellFormed, RedisClient.WholeEnd,
      Push.kind, bytes]
  · intro _
    decide

/-- `$5 CRLF he` is returned as the empty text, and a message that is cut in
its channel calls back with an empty channel and payload. -/
theorem cut_stream_fabricates :
    ¬(Outage.get [107] (.bulk (bytes "hello")) 6).Honest (fun _ => 4096) {} ∧
      ¬(Outage.psubscribe [42] [.psubscribed [42] 1, .pmessage [42] (bytes "chat:7") (bytes "hi")] 62).Honest
        (fun _ => 4096) {} := by
  constructor
  · intro ⟨v, d, hv, hw⟩
    have hget : v = some [] := by
      cases hv
      rfl
    exact absurd (hw [] hget).1 (by decide)
  · intro h
    have hlen := h.length_le
    revert hlen
    decide

end Ryklys

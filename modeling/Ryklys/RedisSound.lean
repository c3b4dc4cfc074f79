import Ryklys.RedisClient

/-!
# RESP replies stay in step while a CRLF comes whole

`readBytes` asks for the two bytes behind a payload with a single `recv`. When
it gets one of them, the other is left for the next call (`replies_out_of_step`).
A session returns the value of each reply and takes exactly its bytes if and
only if every such `recv` returns both (`replies_in_step_iff`), however the
stream is cut elsewhere.
-/

namespace Ryklys

/-! ## Replies -/

inductive Reply where
  | simple (text : Bytes)
  | bulk (payload : Bytes)
  | nil
  | integer (n : Int)
  | error (text : Bytes)
  deriving DecidableEq, Repr

namespace Reply

def line : Reply → Bytes
  | simple text => bytes "+" ++ text
  | bulk payload => bytes "$" ++ Numeral.ofNat payload.length
  | nil => bytes "$-1"
  | integer n => bytes ":" ++ Numeral.ofInt n
  | error text => bytes "-" ++ text

def encode : Reply → Bytes
  | bulk payload => (bulk payload).line ++ crlf ++ payload ++ crlf
  | reply => reply.line ++ crlf

end Reply

def OneLine (text : Bytes) : Prop := 13 ∉ text ∧ 10 ∉ text

/-- The well-formed replies to a command. -/
def Fits : RedisCall → Reply → Prop
  | .set _ _, .simple text => OneLine text
  | .get _, .bulk _ => True
  | .get _, .nil => True
  | .incr _, .integer n | .decr _, .integer n | .del _, .integer n | .publish _ _, .integer n =>
    -2 ^ 31 ≤ n ∧ n ≤ 2 ^ 31 - 1
  | _, .error text => OneLine text
  | _, _ => False

namespace Reply

def textOf : Reply → Option Bytes
  | bulk payload => some payload
  | _ => none

/-- An error counts as 0. -/
def number : Reply → Int
  | integer n => n
  | _ => 0

end Reply

/-- What a call should return for a reply. -/
def valueOf : RedisCall → Reply → RedisValue
  | .set _ _, reply => .bool (reply = .simple (bytes "OK"))
  | .get _, reply => .text reply.textOf
  | .del _, reply => .bool (decide (reply.number > 0))
  | .incr _, reply | .decr _, reply | .publish _ _, reply => .int reply.number

structure Exchange where
  call : RedisCall
  reply : Reply
  fits : Fits call reply

/-! ## A session -/

namespace RedisClient

variable (limit : Nat → Nat)

def arrives (c : RedisClient) (reply : Reply) : RedisClient := { c with unread := c.unread ++ reply.encode }

/-- The calls that return, each with its value and the number of bytes
received by then; a call that does not return is the last. -/
def session : RedisClient → List Exchange → List (RedisValue × Nat)
  | _, [] => []
  | c, x :: xs =>
    match (c.arrives x.reply).call limit x.call with
    | .ok (value, c) => (value, c.received) :: session c xs
    | .error _ => []

/-- Every call returns its reply's value, at the end of that reply. -/
def inStep : Nat → List Exchange → List (RedisValue × Nat)
  | _, [] => []
  | pos, x :: xs =>
    (valueOf x.call x.reply, pos + x.reply.encode.length) :: inStep (pos + x.reply.encode.length) xs

/-- A bulk payload has a length that `stoi` reads, and the `recv` for the CRLF
behind it returns both bytes. -/
def WholeEnd (pos : Nat) : Reply → Prop
  | .bulk payload => payload.length < 2 ^ 31 ∧ 2 ≤ limit (pos + (Reply.bulk payload).encode.length - 2)
  | _ => True

def WholeEnds : Nat → List Exchange → Prop
  | _, [] => True
  | pos, x :: xs => WholeEnd limit pos x.reply ∧ WholeEnds (pos + x.reply.encode.length) xs

/-! ## The readers on a stream -/

@[simp] theorem advance_received (c : RedisClient) (n : Nat) : (c.advance n).received = c.received + n := rfl

@[simp] theorem advance_unread (c : RedisClient) (n : Nat) : (c.advance n).unread = c.unread.drop n := rfl

@[simp] theorem advance_advance (c : RedisClient) (m n : Nat) : (c.advance m).advance n = c.advance (m + n) := by
  simp only [advance, List.drop_drop, Nat.add_assoc]

theorem advance_zero (c : RedisClient) : c.advance 0 = c := rfl

variable {limit} {c : RedisClient} {line rest : Bytes}

theorem recv_one {b : UInt8} (h : c.unread = b :: rest) : c.recv limit 1 = .ok ([b], c.advance 1) := by
  have hn : acceptCount (limit c.received) (min 1 c.unread.length) = 1 := by
    unfold acceptCount
    omega
  rw [recv, if_neg (by rw [h]; simp)]
  simp only [hn]
  rw [h]
  rfl

theorem readLineLoop_eq : ∀ (line : Bytes) (fuel : Nat) (c : RedisClient) (acc : Bytes), 13 ∉ line →
    c.unread = line ++ crlf ++ rest → line.length < fuel →
    readLineLoop limit fuel c acc = .ok (acc ++ line, c.advance (line.length + 2))
  | [], fuel, c, acc, _, h, hf => by
    obtain ⟨fuel, rfl⟩ := Nat.exists_eq_succ_of_ne_zero (Nat.ne_of_gt hf)
    have h1 : (c.advance 1).unread = 10 :: rest := by rw [advance_unread, h]; rfl
    have h13 : c.unread = 13 :: 10 :: rest := h
    rw [readLineLoop, recv_one h13]
    change ((c.advance 1).recv limit 1 >>= fun p => Except.ok (acc, p.2)) = _
    rw [recv_one h1, List.append_nil, List.length_nil]
    change Except.ok (acc, (c.advance 1).advance 1) = _
    rw [advance_advance]
  | b :: line, fuel, c, acc, hl, h, hf => by
    obtain ⟨fuel, rfl⟩ := Nat.exists_eq_succ_of_ne_zero (Nat.ne_of_gt (Nat.zero_lt_of_lt hf))
    rw [List.mem_cons, not_or] at hl
    have h1 : (c.advance 1).unread = line ++ crlf ++ rest := by rw [advance_unread, h]; rfl
    have hb : c.unread = b :: (line ++ crlf ++ rest) := h
    rw [readLineLoop, recv_one hb]
    change (if b = 13 then _ else readLineLoop limit fuel (c.advance 1) (acc ++ [b])) = _
    rw [if_neg (Ne.symm hl.1), readLineLoop_eq line fuel (c.advance 1) (acc ++ [b]) hl.2 h1 (Nat.lt_of_succ_lt_succ hf),
      advance_advance, List.append_assoc, List.singleton_append, List.length_cons]
    congr 3
    omega

theorem readLine_eq (hl : 13 ∉ line) (h : c.unread = line ++ crlf ++ rest) :
    c.readLine limit = .ok (line, c.advance (line.length + 2)) := by
  refine readLineLoop_eq line _ c [] hl h ?_
  rw [h, List.length_append, List.length_append, crlf_length]
  omega

theorem readBytesLoop_eq (count : Nat) : ∀ (fuel : Nat) (c : RedisClient) (buf : Bytes),
    count - buf.length ≤ fuel → count - buf.length ≤ c.unread.length →
    readBytesLoop limit count fuel c buf =
      .ok (buf ++ c.unread.take (count - buf.length), c.advance (count - buf.length))
  | 0, c, buf, hf, _ => by
    rw [Nat.le_zero.mp hf, List.take_zero, List.append_nil, advance_zero, readBytesLoop]
  | fuel + 1, c, buf, hf, hu => by
    rw [readBytesLoop]
    by_cases hlt : buf.length < count
    · have hne : c.unread ≠ [] := by
        intro hn
        rw [hn, List.length_nil] at hu
        omega
      obtain ⟨n, hn⟩ : ∃ n, n = acceptCount (limit c.received) (min (count - buf.length) c.unread.length) := ⟨_, rfl⟩
      have hpos : 1 ≤ n ∧ n ≤ count - buf.length := by
        rw [hn, acceptCount]
        omega
      have htake : (c.unread.take n).length = n := by
        rw [List.length_take]
        omega
      rw [if_pos hlt, recv, if_neg hne, ← hn]
      change readBytesLoop limit count fuel (c.advance n) (buf ++ c.unread.take n) = _
      -- what is still missing is `n` bytes less
      have hrest : count - (buf ++ c.unread.take n).length = count - buf.length - n := by
        rw [List.length_append, htake]
        omega
      have hleft : count - (buf ++ c.unread.take n).length ≤ (c.advance n).unread.length := by
        rw [hrest, advance_unread, List.length_drop]
        omega
      rw [readBytesLoop_eq count fuel _ _ (by omega) hleft, hrest, advance_unread, advance_advance,
        List.append_assoc, ← List.drop_take, Nat.add_sub_cancel' hpos.2]
      congr 3
      have hsplit := List.take_append_drop n (c.unread.take (count - buf.length))
      rwa [List.take_take, Nat.min_eq_left hpos.2] at hsplit
    · rw [if_neg hlt, show count - buf.length = 0 by omega, List.take_zero, List.append_nil, advance_zero]

theorem readBytes_eq {payload : Bytes} (h : c.unread = payload ++ crlf) :
    c.readBytes limit payload.length = .ok (payload,
      c.advance (payload.length + acceptCount (limit (c.received + payload.length)) 2)) := by
  have hlen : payload.length ≤ c.unread.length := by
    rw [h, List.length_append]
    omega
  have hend : (c.advance payload.length).unread = crlf := by rw [advance_unread, h, List.drop_left]
  rw [readBytes, readBytesLoop_eq payload.length payload.length c [] (Nat.le_refl _) hlen]
  change ((c.advance payload.length).recv limit 2 >>= fun p => Except.ok (c.unread.take payload.length, p.2)) = _
  rw [recv, hend, if_neg (by decide), h, List.take_left]
  change Except.ok (payload, (c.advance payload.length).advance _) = _
  rw [advance_advance]
  rfl

/-! ## Numbers -/

theorem ofInt_not_cr (n : Int) : 13 ∉ Numeral.ofInt n := by
  have hdigits : ∀ n, 13 ∉ Numeral.ofNat n := by
    intro n hm
    exact absurd (Numeral.isDigit_ofNat n 13 hm) (by decide)
  cases n with
  | ofNat n => exact hdigits n
  | negSucc n =>
    rw [Numeral.ofInt, List.mem_cons, not_or]
    exact ⟨by decide, hdigits (n + 1)⟩

theorem stoi_ofInt {n : Int} (h : -2 ^ 31 ≤ n ∧ n ≤ 2 ^ 31 - 1) : stoi (Numeral.ofInt n) = .ok n := by
  rw [stoi, Ryklys.stoi_ofInt h]

theorem stoi_ofInt_outOfRange {n : Int} (h : ¬(-2 ^ 31 ≤ n ∧ n ≤ 2 ^ 31 - 1)) :
    stoi (Numeral.ofInt n) = .error (.thrown .outOfRange) := by
  have hd := dropWhile_ofInt n []
  have hr := Numeral.readInt_ofInt n (t := []) (by intro c hc; cases hc)
  rw [List.append_nil] at hd hr
  rw [stoi, Ryklys.stoi, stoInt, hd, hr]
  simp only [if_neg h]

/-! ## One call -/

theorem readLine_simple (b : UInt8) (text : Bytes) (hb : b ≠ 13) (ht : 13 ∉ text)
    (h : c.unread = b :: text ++ crlf) :
    c.readLine limit = .ok (b :: text, c.advance (b :: text ++ crlf).length) := by
  have hmem : 13 ∉ b :: text := by
    rw [List.mem_cons, not_or]
    exact ⟨Ne.symm hb, ht⟩
  have hline : c.unread = b :: text ++ crlf ++ [] := by rw [h, List.append_nil]
  rw [readLine_eq hmem hline, List.length_append, crlf_length]

theorem readInteger_integer {n : Int} (hn : -2 ^ 31 ≤ n ∧ n ≤ 2 ^ 31 - 1)
    (h : c.unread = (Reply.integer n).encode) :
    c.readInteger limit = .ok (n, c.advance (Reply.integer n).encode.length) := by
  rw [readInteger, readLine_simple 58 (Numeral.ofInt n) (by decide) (ofInt_not_cr n) h]
  change (do let n ← stoi (Numeral.ofInt n); Except.ok (n, _)) = _
  rw [stoi_ofInt hn]
  rfl

theorem readInteger_error {text : Bytes} (ht : 13 ∉ text) (h : c.unread = (Reply.error text).encode) :
    c.readInteger limit = .ok (0, c.advance (Reply.error text).encode.length) := by
  rw [readInteger, readLine_simple 45 text (by decide) ht h]
  rfl

theorem readBulkString_nil (h : c.unread = Reply.nil.encode) :
    c.readBulkString limit = .ok (none, c.advance Reply.nil.encode.length) := by
  rw [readBulkString, readLine_simple 36 (bytes "-1") (by decide) (by decide) h]
  rfl

theorem readBulkString_error {text : Bytes} (ht : 13 ∉ text) (h : c.unread = (Reply.error text).encode) :
    c.readBulkString limit = .ok (none, c.advance (Reply.error text).encode.length) := by
  rw [readBulkString, readLine_simple 45 text (by decide) ht h]
  rfl

theorem bulk_length (payload : Bytes) :
    (Reply.bulk payload).encode.length = (Reply.bulk payload).line.length + 2 + payload.length + 2 := by
  simp only [Reply.encode, List.length_append, crlf_length]

theorem readBulkString_line {payload : Bytes} (h : c.unread = (Reply.bulk payload).encode) :
    c.readBulkString limit = (do
      let len ← stoi (Numeral.ofInt payload.length)
      if len < 0 then .ok (none, c.advance ((Reply.bulk payload).line.length + 2))
      else
        let (buf, d) ← (c.advance ((Reply.bulk payload).line.length + 2)).readBytes limit len.toNat
        .ok (some buf, d)) := by
  have hcr : 13 ∉ (Reply.bulk payload).line := by
    rw [Reply.line, List.mem_append, not_or]
    exact ⟨by decide, ofInt_not_cr payload.length⟩
  have hu : c.unread = (Reply.bulk payload).line ++ crlf ++ (payload ++ crlf) := by
    rw [h, Reply.encode, List.append_assoc _ payload]
  rw [readBulkString, readLine_eq hcr hu]
  rfl

theorem readBulkString_bulk {payload : Bytes} (hl : payload.length < 2 ^ 31)
    (h : c.unread = (Reply.bulk payload).encode) :
    c.readBulkString limit = .ok (some payload, c.advance ((Reply.bulk payload).encode.length - 2 +
      acceptCount (limit (c.received + (Reply.bulk payload).encode.length - 2)) 2)) := by
  have hu : (c.advance ((Reply.bulk payload).line.length + 2)).unread = payload ++ crlf := by
    rw [advance_unread, h, Reply.encode, List.append_assoc, List.append_assoc, ← List.append_assoc _ crlf,
      List.drop_left' (by rw [List.length_append, crlf_length])]
  have hpos : c.received + (Reply.bulk payload).encode.length - 2 =
      c.received + ((Reply.bulk payload).line.length + 2) + payload.length := by
    rw [bulk_length]
    omega
  rw [readBulkString_line h, stoi_ofInt (by omega)]
  change (if (payload.length : Int) < 0 then Except.ok (none, c.advance ((Reply.bulk payload).line.length + 2)) else
    (do let (buf, d) ← (c.advance ((Reply.bulk payload).line.length + 2)).readBytes limit payload.length
        Except.ok (some buf, d))) = _
  rw [if_neg (by omega), readBytes_eq hu, hpos]
  change Except.ok (some payload, RedisClient.advance _ _) = _
  rw [advance_advance, advance_received, bulk_length]
  congr 3
  omega

theorem readBulkString_long {payload : Bytes} (hl : ¬payload.length < 2 ^ 31)
    (h : c.unread = (Reply.bulk payload).encode) :
    c.readBulkString limit = .error (.thrown .outOfRange) := by
  rw [readBulkString_line h, stoi_ofInt_outOfRange (by omega)]
  rfl

def Returned (c : RedisClient) (x : Exchange) (r : Except RedisStop (RedisValue × RedisClient)) : Prop :=
  ∃ d, r = .ok (valueOf x.call x.reply, d) ∧ d.unread = [] ∧ d.received = c.received + x.reply.encode.length

theorem returned_advance {x : Exchange} {d : RedisClient} (hr : d.received = c.received)
    (hu : d.unread = x.reply.encode) {value : RedisValue} (hv : value = valueOf x.call x.reply) :
    Returned c x (.ok (value, d.advance x.reply.encode.length)) := by
  refine ⟨_, by rw [hv], ?_, ?_⟩
  · rw [advance_unread, hu, List.drop_length]
  · rw [advance_received, hr]

theorem arrives_unread (reply : Reply) (hc : c.unread = []) (args : List Bytes) :
    ((c.arrives reply).sendCommand args).unread = reply.encode := by
  change c.unread ++ reply.encode = reply.encode
  rw [hc, List.nil_append]

theorem set_returned {key value : Bytes} {reply : Reply} (hf : Fits (.set key value) reply) (hc : c.unread = []) :
    Returned c ⟨.set key value, reply, hf⟩ ((c.arrives reply).call limit (.set key value)) := by
  have hu := arrives_unread reply hc [bytes "SET", key, value]
  cases reply with
  | simple text =>
    rw [call, set, readLine_simple 43 text (by decide) hf.1 hu]
    refine returned_advance (x := ⟨.set key value, .simple text, hf⟩) rfl hu ?_
    change RedisValue.bool (43 :: text == bytes "+OK") = .bool (decide (Reply.simple text = .simple (bytes "OK")))
    congr 1
    rw [Bool.eq_iff_iff, beq_iff_eq, decide_eq_true_iff, Reply.simple.injEq]
    exact List.cons_inj_right 43
  | error text =>
    rw [call, set, readLine_simple 45 text (by decide) hf.1 hu]
    exact returned_advance (x := ⟨.set key value, .error text, hf⟩) rfl hu rfl
  | _ => cases hf

theorem readInteger_returned {x : Exchange} {d : RedisClient} (hr : d.received = c.received)
    (hu : d.unread = x.reply.encode)
    (hx : (∃ n, x.reply = .integer n ∧ -2 ^ 31 ≤ n ∧ n ≤ 2 ^ 31 - 1) ∨ ∃ text, x.reply = .error text ∧ OneLine text)
    {v : Int → RedisValue} (hv : v x.reply.number = valueOf x.call x.reply) :
    Returned c x (do let (n, d) ← d.readInteger limit; .ok (v n, d)) := by
  rcases hx with ⟨n, hn, hlim⟩ | ⟨text, hn, htext⟩
  · rw [readInteger_integer hlim (hn ▸ hu), ← hn]
    rw [hn] at hv
    exact returned_advance hr hu (hn ▸ hv)
  · rw [readInteger_error htext.1 (hn ▸ hu), ← hn]
    rw [hn] at hv
    exact returned_advance hr hu (hn ▸ hv)

theorem get_returned {key : Bytes} {reply : Reply} (hf : Fits (.get key) reply) (hc : c.unread = [])
    (hw : WholeEnd limit c.received reply) :
    Returned c ⟨.get key, reply, hf⟩ ((c.arrives reply).call limit (.get key)) := by
  have hu := arrives_unread reply hc [bytes "GET", key]
  cases reply with
  | bulk payload =>
    obtain ⟨hl, hlim⟩ := hw
    rw [call, get, readBulkString_bulk hl hu]
    change Returned c _ (.ok (.text (some payload),
      RedisClient.advance _ (_ - 2 + acceptCount (limit (c.received + _ - 2)) 2)))
    have htwo : acceptCount (limit (c.received + (Reply.bulk payload).encode.length - 2)) 2 = 2 := by
      unfold acceptCount
      omega
    have hlen := bulk_length payload
    rw [htwo, Nat.sub_add_cancel (by omega)]
    exact returned_advance (x := ⟨.get key, .bulk payload, hf⟩) rfl hu rfl
  | nil =>
    rw [call, get, readBulkString_nil hu]
    exact returned_advance (x := ⟨.get key, .nil, hf⟩) rfl hu rfl
  | error text =>
    rw [call, get, readBulkString_error hf.1 hu]
    exact returned_advance (x := ⟨.get key, .error text, hf⟩) rfl hu rfl
  | _ => cases hf

theorem call_del (c : RedisClient) (key : Bytes) :
    c.call limit (.del key) = (do
      let (n, d) ← (c.sendCommand [bytes "DEL", key]).readInteger limit
      .ok (.bool (decide (n > 0)), d)) := by
  rw [call, del]
  cases (c.sendCommand [bytes "DEL", key]).readInteger limit <;> rfl

theorem fits_integer {call : RedisCall} {reply : Reply} (hf : Fits call reply)
    (hs : ∀ key value, call ≠ .set key value) (hg : ∀ key, call ≠ .get key) :
    (∃ n, reply = .integer n ∧ -2 ^ 31 ≤ n ∧ n ≤ 2 ^ 31 - 1) ∨ ∃ text, reply = .error text ∧ OneLine text := by
  cases reply with
  | integer n =>
    refine .inl ⟨n, rfl, ?_⟩
    cases call with
    | set key value => cases hf
    | get key => cases hf
    | _ => exact hf
  | error text =>
    refine .inr ⟨text, rfl, ?_⟩
    cases call <;> exact hf
  | _ =>
    cases call with
    | set key value => exact absurd rfl (hs key value)
    | get key => exact absurd rfl (hg key)
    | _ => cases hf

theorem call_returned (x : Exchange) (hc : c.unread = []) (hw : WholeEnd limit c.received x.reply) :
    Returned c x ((c.arrives x.reply).call limit x.call) := by
  obtain ⟨call, reply, hf⟩ := x
  have hx := fits_integer hf
  cases call with
  | set key value => exact set_returned hf hc
  | get key => exact get_returned hf hc hw
  | del key =>
    rw [call_del]
    exact readInteger_returned rfl (arrives_unread _ hc _) (hx (by simp) (by simp))
      (v := fun n => .bool (decide (n > 0))) rfl
  | _ => exact readInteger_returned rfl (arrives_unread _ hc _) (hx (by simp) (by simp)) (v := .int) rfl

theorem call_cut (x : Exchange) (hc : c.unread = []) (hw : ¬WholeEnd limit c.received x.reply) {value : RedisValue}
    {d : RedisClient} (hr : (c.arrives x.reply).call limit x.call = .ok (value, d)) :
    d.received ≠ c.received + x.reply.encode.length := by
  obtain ⟨call, reply, hf⟩ := x
  cases reply with
  | bulk payload =>
    cases call with
    | get key =>
      have hu := arrives_unread (.bulk payload) hc [bytes "GET", key]
      by_cases hl : payload.length < 2 ^ 31
      · have hlim : ¬2 ≤ limit (c.received + (Reply.bulk payload).encode.length - 2) := fun h => hw ⟨hl, h⟩
        have hone : acceptCount (limit (c.received + (Reply.bulk payload).encode.length - 2)) 2 = 1 := by
          unfold acceptCount
          omega
        have hlen := bulk_length payload
        rw [RedisClient.call, get, readBulkString_bulk hl hu] at hr
        change Except.ok (RedisValue.text (some payload), RedisClient.advance _
          (_ - 2 + acceptCount (limit (c.received + _ - 2)) 2)) = _ at hr
        rw [hone] at hr
        cases hr
        rw [advance_received]
        change c.received + _ ≠ c.received + (Reply.bulk payload).encode.length
        omega
      · rw [RedisClient.call, get, readBulkString_long hl hu] at hr
        cases hr
    | _ => cases hf
  | _ => exact absurd trivial hw

/-! ## Every session -/

theorem session_eq_iff (limit : Nat → Nat) : ∀ (xs : List Exchange) (c : RedisClient), c.unread = [] →
    (session limit c xs = inStep c.received xs ↔ WholeEnds limit c.received xs)
  | [], _, _ => ⟨fun _ => trivial, fun _ => rfl⟩
  | x :: xs, c, hc => by
    rw [session, inStep, WholeEnds]
    by_cases hw : WholeEnd limit c.received x.reply
    · obtain ⟨d, hr, hd, hpos⟩ := call_returned x hc hw
      simp only [hr]
      rw [← hpos, List.cons_inj_right, session_eq_iff limit xs d hd]
      exact (and_iff_right hw).symm
    · refine ⟨fun h => ?_, fun h => absurd h.1 hw⟩
      cases hr : (c.arrives x.reply).call limit x.call with
      | error stop =>
        simp only [hr] at h
        cases h
      | ok r =>
        simp only [hr] at h
        have hpos : r.2.received = c.received + x.reply.encode.length :=
          congrArg Prod.snd (List.cons.inj h).1
        exact absurd hpos (call_cut x hc hw hr)

/-- **In step.** Every call of a session returns its reply's value and takes
exactly its bytes if and only if every bulk payload is shorter than 2^31 bytes
and the `recv` behind it returns the whole CRLF. -/
theorem replies_in_step_iff (limit : Nat → Nat) (xs : List Exchange) :
    session limit {} xs = inStep 0 xs ↔ WholeEnds limit 0 xs := session_eq_iff limit xs {} rfl

/-- `GET` gets the CR of its CRLF alone, and `INCR` then reads a line that
starts with the LF. -/
theorem replies_out_of_step :
    let xs : List Exchange := [⟨.get [107], .bulk [118], trivial⟩, ⟨.incr [110], .integer 7, by unfold Fits; decide⟩]
    let limit := fun pos => if pos = 5 then 1 else 2
    session limit {} xs = [(.text (some [118]), 6), (.int 0, 11)] ∧ session limit {} xs ≠ inStep 0 xs := by
  decide

end RedisClient

end Ryklys

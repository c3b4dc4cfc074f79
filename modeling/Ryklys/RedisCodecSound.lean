import Ryklys.RedisCutSound

/-!
# RESP commands, sent and read back

However few bytes each `send` takes, the loop puts the whole command on the
socket, which is the RESP array of its arguments as bulk strings. `readArray`
reads the array back, whatever bytes the arguments hold, and stops right behind
it (`command_round_trip`).
-/

namespace Ryklys

/-- The array of bulk strings. -/
def respArray (args : List Bytes) : Bytes :=
  bytes "*" ++ Numeral.ofNat args.length ++ crlf ++ (args.map Reply.bulk).flatMap Reply.encode

theorem encodeCommand_eq (args : List Bytes) : RedisClient.encodeCommand args = respArray args := by
  rw [RedisClient.encodeCommand, respArray]
  congr 1
  induction args with
  | nil => rfl
  | cons arg args ih => rw [List.flatMap_cons, List.map_cons, List.flatMap_cons, ih, Reply.encode, Reply.line]

namespace RedisLink

variable (limit : Nat → Nat) {l : RedisLink}

/-! ## Sending -/

def puts (l : RedisLink) (data : Bytes) : RedisLink :=
  { l with client := { l.client with sent := l.client.sent ++ data } }

theorem puts_puts (l : RedisLink) (a b : Bytes) : (l.puts a).puts b = l.puts (a ++ b) := by
  simp [puts]

theorem puts_nil (l : RedisLink) : l.puts [] = l := by
  simp [puts]

theorem send_accepted {result : SendResult} (hr : ∃ n, result = .accepted n) (hc : l.connected = true) {data : Bytes}
    (hd : data ≠ []) :
    ∃ sent, 1 ≤ sent ∧ sent ≤ data.length ∧ l.send result data = some (sent, l.puts (data.take sent)) := by
  obtain ⟨n, rfl⟩ := hr
  have hpos := List.length_pos_of_ne_nil hd
  refine ⟨acceptCount n data.length, Nat.le_max_left .., ?_, ?_⟩
  · rw [acceptCount]
    omega
  · rw [send, if_pos hc]
    rfl

theorem sendLoop_eq {results : Nat → SendResult} (hr : ∀ i, ∃ n, results i = .accepted n) (cmd : Bytes) (fuel : Nat) :
    ∀ (i total : Nat) (l : RedisLink), l.connected = true → cmd.length - total ≤ fuel →
      sendLoop results cmd fuel i total l = l.puts (cmd.drop total) := by
  induction fuel with
  | zero =>
    intro i total l _ hf
    rw [sendLoop, List.drop_of_length_le (by omega), puts_nil]
  | succ fuel ih =>
    intro i total l hc hf
    rw [sendLoop]
    by_cases ht : total < cmd.length
    · have hne : cmd.drop total ≠ [] := by
        intro h
        have hlen := congrArg List.length h
        rw [List.length_drop, List.length_nil] at hlen
        omega
      obtain ⟨sent, h1, -, hs⟩ := send_accepted (hr i) hc hne
      rw [if_pos ht, hs]
      change sendLoop results cmd fuel (i + 1) (total + sent) _ = _
      rw [ih (i + 1) (total + sent) (l.puts _) hc (by omega), puts_puts, ← List.drop_drop, List.take_append_drop]
    · rw [if_neg ht, List.drop_of_length_le (by omega), puts_nil]

theorem sendCommandBy_eq {results : Nat → SendResult} (hr : ∀ i, ∃ n, results i = .accepted n) (hc : l.connected = true)
    (args : List Bytes) : l.sendCommandBy results args = l.puts (respArray args) := by
  rw [sendCommandBy, sendLoop_eq hr _ _ 0 0 l hc (Nat.sub_le ..), List.drop_zero, encodeCommand_eq]

/-! ## Reading back -/

theorem endsWhole_bulk (hl : ∀ pos, 2 ≤ limit pos) (args : List Bytes) (ha : ∀ a ∈ args, a.length < 2 ^ 31) :
    ∀ pos, EndsWhole limit pos (args.map Reply.bulk) := by
  induction args with
  | nil => intro _; trivial
  | cons a args ih =>
    intro pos
    have hlen := ha a (List.mem_cons_self ..)
    exact ⟨⟨hlen, hlen, hl _⟩, ih (fun b hb => ha b (List.mem_cons_of_mem a hb)) _⟩

theorem header_not_cr (n : Nat) : 13 ∉ bytes "*" ++ Numeral.ofNat n := by
  rw [List.mem_append, not_or]
  exact ⟨by decide, RedisClient.ofInt_not_cr n⟩

theorem readArray_respArray (hl : ∀ pos, 2 ≤ limit pos) {args : List Bytes} (hn : args.length < 2 ^ 31)
    (ha : ∀ a ∈ args, a.length < 2 ^ 31) {rest : Bytes} {cut pos : Nat} (hcut : (respArray args).length ≤ cut)
    (h : l.At (respArray args ++ rest) cut pos) :
    ∃ l', l.readArray limit = .ok (args, l') ∧
      l'.At rest (cut - (respArray args).length) (pos + (respArray args).length) := by
  have hlen : (respArray args).length = (bytes "*" ++ Numeral.ofNat args.length).length + 2 +
      ((args.map Reply.bulk).flatMap Reply.encode).length := by
    rw [respArray, List.length_append, List.length_append, crlf_length]
  rw [respArray, List.append_assoc _ _ rest] at h
  obtain ⟨m, hm, hat⟩ := readLine_at limit (header_not_cr args.length) h (by omega)
  obtain ⟨l', hl', hend⟩ := readElements_whole limit (args.map Reply.bulk) (endsWhole_bulk limit hl args ha _) hat (by omega)
  have hstoi : stoi (Numeral.ofNat args.length) = .ok (args.length : Int) :=
    stoi_ofInt (i := args.length) (by omega)
  have htext : (args.map Reply.bulk).map Reply.text = args := by
    rw [List.map_map]
    exact (List.map_congr_left fun a _ => rfl).trans (List.map_id args)
  refine ⟨l', ?_, ?_⟩
  · rw [readArray, hm]
    change (do let count ← stoi (Numeral.ofNat args.length); readElements limit count.toNat m) = _
    rw [hstoi]
    rw [List.length_map, htext] at hl'
    exact hl'
  · rw [hlen, ← Nat.sub_sub, ← Nat.add_assoc]
    exact hend

/-- **Round trip.** A command is on the socket as the array of its arguments,
and read back it gives the arguments and leaves the bytes behind it. -/
theorem command_round_trip (results : Nat → SendResult) (hr : ∀ i, ∃ n, results i = .accepted n)
    (hl : ∀ pos, 2 ≤ limit pos) {args : List Bytes} (hn : args.length < 2 ^ 31) (ha : ∀ a ∈ args, a.length < 2 ^ 31)
    {sender reader : RedisLink} (hs : sender.connected = true) (hc : reader.connected = true) (rest : Bytes) :
    sender.sendCommandBy results args = sender.puts (respArray args) ∧
    ∃ r, (reader.breaks (respArray args ++ rest)).readArray limit = .ok (args, r) ∧ r.connected = true ∧
      r.client.unread = rest := by
  have hat := breaks_at hc (respArray args ++ rest) (respArray args ++ rest).length
  rw [List.take_length] at hat
  obtain ⟨r, hr', hend⟩ := readArray_respArray limit hl hn ha (by rw [List.length_append]; omega) hat
  refine ⟨sendCommandBy_eq hr hs args, r, hr', hend.connected, ?_⟩
  rw [hend.unread, List.length_append, Nat.add_sub_cancel_left, List.take_length]

/-- One argument is empty, the other has the delimiters of the protocol in it;
every `send` takes three bytes. -/
theorem command_round_trip_delimiters :
    (({} : RedisLink).sendCommandBy (fun _ => .accepted 3) [[], bytes "$\r\n"]) =
      ({} : RedisLink).puts (respArray [[], bytes "$\r\n"]) ∧
    ∃ r, (({} : RedisLink).breaks (respArray [[], bytes "$\r\n"] ++ bytes "+OK")).readArray (fun _ => 2) =
        .ok ([[], bytes "$\r\n"], r) ∧ r.connected = true ∧ r.client.unread = bytes "+OK" :=
  command_round_trip (fun _ => 2) (fun _ => .accepted 3) (fun _ => ⟨3, rfl⟩) (fun _ => Nat.le_refl 2) (by decide)
    (by decide) rfl rfl (bytes "+OK")

end RedisLink

end Ryklys

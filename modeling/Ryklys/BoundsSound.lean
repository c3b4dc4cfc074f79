import Ryklys.StreamSound

/-!
# The bounds of `Parse`

What the first bytes of a buffer declare, as natural numbers, against the check
`WebSocketFrame::Parse` makes on their sum in 64 bits. The check is exact as
long as the sum does not wrap (`staysInside_iff`).
-/

namespace Ryklys

open WebSocketFrame (readLength readMaskKey maxPayload)

/-! ## Declared sizes -/

/-- The bytes of header and mask, and the payload length, that a frame's first
bytes declare. -/
def declaredSizes : Bytes → Nat × Nat
  | _ :: byte1 :: rest =>
    let mask := if byte1 &&& 0x80 != 0 then 4 else 0
    let len7 := (byte1 &&& 0x7F).toNat
    if len7 = 126 then (2 + 2 + mask, Numeral.ofBytes (rest.take 2))
    else if len7 = 127 then (2 + 8 + mask, Numeral.ofBytes (rest.take 8))
    else (2 + mask, len7)
  | _ => (0, 0)

def headerSize (data : Bytes) : Nat := (declaredSizes data).1

def declaredLength (data : Bytes) : Nat := (declaredSizes data).2

/-- The declared length is there and takes the sum past the largest `size_t`. -/
def LengthWraps (data : Bytes) : Prop :=
  headerSize data ≤ data.length ∧ sizeMod ≤ headerSize data + declaredLength data

instance (data : Bytes) : Decidable (LengthWraps data) := by unfold LengthWraps; infer_instance

theorem headerSize_ge (b0 b1 : UInt8) (rest : Bytes) : 2 ≤ headerSize (b0 :: b1 :: rest) := by
  simp only [headerSize, declaredSizes]
  split
  · omega
  split <;> omega

theorem headerSize_le (data : Bytes) : headerSize data ≤ 14 := by
  unfold headerSize declaredSizes
  split
  · simp only
    split
    · split <;> omega
    split <;> split <;> omega
  · omega

theorem declaredLength_lt (data : Bytes) : declaredLength data < sizeMod := by
  unfold declaredLength declaredSizes
  split
  · rename_i b0 b1 rest
    have h7 := (b1 &&& 0x7F).toNat_lt
    have h2 := Numeral.ofBytes_lt (rest.take 2)
    have h8 := Numeral.ofBytes_lt (rest.take 8)
    have h2' : 256 ^ (rest.take 2).length ≤ 256 ^ 8 := Nat.pow_le_pow_right (by decide) (by simp)
    have h8' : 256 ^ (rest.take 8).length ≤ 256 ^ 8 := Nat.pow_le_pow_right (by decide) (by simp)
    simp only [sizeMod]
    split
    · simp only; omega
    split
    · simp only; omega
    · simp only; omega
  · decide

/-! ## `Parse` in terms of the declared sizes -/

theorem readMaskKey_declared (masked : Bool) {data : Bytes} {pos : Nat} (h : pos ≤ data.length) : ∃ key,
    readMaskKey masked data pos =
      if data.length < pos + (if masked then 4 else 0) then none else some (key, pos + if masked then 4 else 0) := by
  cases masked with
  | false => exact ⟨.zero, by simp [readMaskKey, Nat.not_lt.mpr h]⟩
  | true =>
    simp only [if_true]
    by_cases hlt : data.length < pos + 4
    · exact ⟨.zero, by rw [if_pos hlt, readMaskKey_short hlt]⟩
    · obtain ⟨key, -, hread⟩ := readMaskKey_whole (Nat.le_of_not_lt hlt)
      exact ⟨key, by rw [if_neg hlt, hread]⟩

theorem readLength_declared (b0 b1 : UInt8) (rest : Bytes) : ∃ pos,
    headerSize (b0 :: b1 :: rest) = pos + (if b1 &&& 0x80 != 0 then 4 else 0) ∧
    readLength (b1 &&& 0x7F).toNat (b0 :: b1 :: rest) =
      if (b0 :: b1 :: rest).length < pos then none else some (declaredLength (b0 :: b1 :: rest), pos) := by
  simp only [readLength, headerSize, declaredLength, declaredSizes]
  generalize (b1 &&& 0x7F).toNat = len7
  by_cases h2 : len7 = 126
  · exact ⟨2 + 2, by simp [h2], by simp [h2]⟩
  by_cases h8 : len7 = 127
  · exact ⟨2 + 8, by simp [h8], by simp [h8]⟩
  · exact ⟨2, by simp [h2, h8], by simp [h2, h8]⟩

theorem parse_none_of_header {data : Bytes} (h : data.length < headerSize data) :
    WebSocketFrame.parse data = .ok none := by
  match data with
  | [] | [_] => rfl
  | b0 :: b1 :: rest =>
    obtain ⟨pos, hheader, hread⟩ := readLength_declared b0 b1 rest
    simp only [WebSocketFrame.parse, hread]
    by_cases hpos : (b0 :: b1 :: rest).length < pos
    · rw [if_pos hpos]
    · rw [if_neg hpos]
      obtain ⟨key, hkey⟩ := readMaskKey_declared (b1 &&& 0x80 != 0) (Nat.le_of_not_lt hpos)
      simp only [hkey]
      rw [if_pos (by omega)]

/-- Behind a whole header, the check on the sum in 64 bits decides. -/
theorem parse_of_header {data : Bytes} (h2 : 2 ≤ data.length) (h : headerSize data ≤ data.length) : ∃ frame,
    frame.payload.length = min (declaredLength data) (data.length - headerSize data) ∧
    WebSocketFrame.parse data =
      if data.length < (headerSize data + declaredLength data) % sizeMod then .ok none
      else if maxPayload < declaredLength data then .error .lengthError
      else .ok (some (frame, headerSize data + declaredLength data)) := by
  match data, h2 with
  | b0 :: b1 :: rest, _ =>
    obtain ⟨pos, hheader, hread⟩ := readLength_declared b0 b1 rest
    obtain ⟨key, hkey⟩ := readMaskKey_declared (b1 &&& 0x80 != 0) (show pos ≤ (b0 :: b1 :: rest).length by omega)
    rw [← hheader, if_neg (Nat.not_lt.mpr h)] at hkey
    simp only [WebSocketFrame.parse, hread]
    rw [if_neg (by omega)]
    simp only [hkey]
    refine ⟨_, ?_, rfl⟩
    split <;> simp

/-! ## Staying inside -/

/-- What is to hold of `Parse` and of the frame loop on a buffer. -/
structure StaysInside (data : Bytes) : Prop where
  checked : WebSocketFrame.parse data ≠ .ok none → headerSize data + declaredLength data ≤ data.length
  returns : ∀ e, WebSocketFrame.parse data ≠ .error e
  payload : ∀ frame n, WebSocketFrame.parse data = .ok (some (frame, n)) →
    frame.payload.length = declaredLength data ∧ n = headerSize data + declaredLength data
  shrinks : ∀ frame n, WebSocketFrame.parse data = .ok (some (frame, n)) → 2 ≤ n ∧ n ≤ data.length ∧
    (data.drop n).length < data.length
  terminates : ∀ (c : WebSocketConnection) reactions fuel, c.readBuffer = data → data.length ≤ fuel →
    c.frameLoop fuel reactions = c.frameLoop data.length reactions

theorem parse_consumed {data : Bytes} {frame : WebSocketFrame} {n : Nat}
    (h : WebSocketFrame.parse data = .ok (some (frame, n))) : 2 ≤ n := by
  match data with
  | [] | [_] => cases h
  | b0 :: b1 :: rest =>
    have hge := headerSize_ge b0 b1 rest
    by_cases hheader : (b0 :: b1 :: rest).length < headerSize (b0 :: b1 :: rest)
    · rw [parse_none_of_header hheader] at h
      cases h
    · have h2 : 2 ≤ (b0 :: b1 :: rest).length := by simp
      obtain ⟨frame', -, hp⟩ := parse_of_header h2 (Nat.le_of_not_lt hheader)
      rw [hp] at h
      split at h
      · cases h
      split at h
      · cases h
      · cases h
        omega

/-- The frame loop needs no more turns than there are bytes. -/
theorem frameLoop_fuel (fuel : Nat) : ∀ (n : Nat) (c : WebSocketConnection) (reactions : List Reaction),
    c.readBuffer.length ≤ fuel → c.readBuffer.length ≤ n → c.frameLoop fuel reactions = c.frameLoop n reactions := by
  induction fuel with
  | zero =>
    intro n c reactions h _
    have hnil := List.length_eq_zero_iff.mp (Nat.le_zero.mp h)
    cases n with
    | zero => rfl
    | succ n => simp only [WebSocketConnection.frameLoop, if_pos hnil]
  | succ fuel ih =>
    intro n c reactions hfuel hn
    cases n with
    | zero =>
      have hnil := List.length_eq_zero_iff.mp (Nat.le_zero.mp hn)
      simp only [WebSocketConnection.frameLoop, if_pos hnil]
    | succ n =>
      by_cases hnil : c.readBuffer = []
      · simp only [WebSocketConnection.frameLoop, if_pos hnil]
      have hpos := List.length_pos_of_ne_nil hnil
      simp only [WebSocketConnection.frameLoop, if_neg hnil]
      cases hp : WebSocketFrame.parse c.readBuffer with
      | error e => rfl
      | ok r =>
        cases r with
        | none => rfl
        | some p =>
          have h2 := parse_consumed hp
          have hbuf := (dispatch_spec c reactions p.1).readBuffer
          simp only
          split
          · rfl
          · apply ih
            · simp only [hbuf, List.length_drop]; omega
            · simp only [hbuf, List.length_drop]; omega

theorem staysInside_of_not_wraps {data : Bytes} (hlen : data.length < 2 ^ 63) (h : ¬ LengthWraps data) :
    StaysInside data := by
  have hterm : ∀ (c : WebSocketConnection) reactions fuel, c.readBuffer = data → data.length ≤ fuel →
      c.frameLoop fuel reactions = c.frameLoop data.length reactions := by
    intro c reactions fuel hc hf
    exact frameLoop_fuel fuel _ c reactions (by rw [hc]; exact hf) (by rw [hc])
  -- the buffers on which nothing is read
  have hwait : WebSocketFrame.parse data = .ok none → StaysInside data := by
    intro hp
    exact ⟨fun hn => absurd hp hn, by simp [hp], by simp [hp], by simp [hp], hterm⟩
  rcases Nat.lt_or_ge data.length 2 with h2 | h2
  · apply hwait
    match data, h2 with
    | [], _ => rfl
    | [_], _ => rfl
  rcases Nat.lt_or_ge data.length (headerSize data) with hheader | hheader
  · exact hwait (parse_none_of_header hheader)
  have hsum : headerSize data + declaredLength data < sizeMod := by
    rw [LengthWraps, not_and] at h
    exact Nat.lt_of_not_le (h hheader)
  obtain ⟨frame, hpay, hp⟩ := parse_of_header h2 hheader
  rw [Nat.mod_eq_of_lt hsum] at hp
  by_cases hlt : data.length < headerSize data + declaredLength data
  · rw [if_pos hlt] at hp
    exact hwait hp
  rw [if_neg hlt, if_neg (by rw [maxPayload]; omega)] at hp
  have hge : 2 ≤ headerSize data + declaredLength data := parse_consumed hp
  refine ⟨fun _ => Nat.le_of_not_lt hlt, by simp [hp], ?_, ?_, hterm⟩
  · intro frame' n he
    rw [hp] at he
    cases he
    exact ⟨by omega, rfl⟩
  · intro frame' n he
    rw [hp] at he
    cases he
    rw [List.length_drop]
    omega

theorem parse_of_wraps {data : Bytes} (h : LengthWraps data) : WebSocketFrame.parse data = .error .lengthError := by
  obtain ⟨hheader, hsum⟩ := h
  have hd := declaredLength_lt data
  have h14 := headerSize_le data
  have hm : 14 < sizeMod := by decide
  have h2 : 2 ≤ data.length := by
    match data with
    | [] => exact absurd hsum (by decide)
    | [_] => exact absurd hsum (by simp [headerSize, declaredLength, declaredSizes, sizeMod])
    | _ :: _ :: _ => simp
  obtain ⟨frame, -, hp⟩ := parse_of_header h2 hheader
  have hmod : (headerSize data + declaredLength data) % sizeMod = headerSize data + declaredLength data - sizeMod := by
    rw [Nat.mod_eq_sub_mod hsum, Nat.mod_eq_of_lt (by omega)]
  have hmax : maxPayload < declaredLength data := by
    simp only [maxPayload, sizeMod] at *
    omega
  -- what is left of the sum is below the header, which is there
  rw [hp, hmod, if_neg (by omega), if_pos hmax]

/-- **Bounds.** `Parse` stays inside a buffer exactly when the sum of the
declared sizes does not wrap. -/
theorem staysInside_iff {data : Bytes} (hlen : data.length < 2 ^ 63) : StaysInside data ↔ ¬ LengthWraps data :=
  ⟨fun h hw => h.returns _ (parse_of_wraps hw), staysInside_of_not_wraps hlen⟩

theorem staysInside_hello : StaysInside helloFrame.encode ∧ ¬ LengthWraps helloFrame.encode :=
  ⟨(staysInside_iff (by decide)).mpr (by decide), by decide⟩

/-- Ten bytes that declare the largest length: the sum is 9, and the payload is
resized to `2 ^ 64 - 1` bytes. -/
theorem not_staysInside_largest :
    [0x82, 0x7F, 0xFF, 0xFF, 0xFF, 0xFF, 0xFF, 0xFF, 0xFF, 0xFF].length < 2 ^ 63 ∧
    ¬ StaysInside [0x82, 0x7F, 0xFF, 0xFF, 0xFF, 0xFF, 0xFF, 0xFF, 0xFF, 0xFF] :=
  ⟨by decide, fun h => h.returns .lengthError rfl⟩

end Ryklys

import Mathlib.Data.List.GetD
import Mathlib.Data.Nat.Find
import Ryklys.Numeral

/-!
# Hash functions over blocks

The part that hash functions of the same design share: a message is padded to
whole blocks of 64 bytes, with its length in bits at the end, and a compression
function is folded over the blocks (`chain`). Words of a schedule come from
earlier ones by a rule, so a list that grows by the rule holds the values of
the sequence that the rule defines (`foldl_grow`).
-/

namespace BlockHash

variable {α σ : Type*}

/-! ## Blocks -/

def blocks (n : Nat) (s : List α) : List (List α) :=
  if s = [] ∨ n = 0 then [] else s.take n :: blocks n (s.drop n)
termination_by s.length
decreasing_by
  rename_i h
  rw [not_or] at h
  have hpos := List.length_pos_iff.mpr h.1
  rw [List.length_drop]
  omega

theorem blocks_nil (n : Nat) : blocks n ([] : List α) = [] := by
  rw [blocks, if_pos (Or.inl rfl)]

theorem blocks_append {n : Nat} (hn : 0 < n) {x : List α} (hx : x.length = n) (y : List α) :
    blocks n (x ++ y) = x :: blocks n y := by
  have hne : ¬ (x ++ y = [] ∨ n = 0) := by
    rintro (h | rfl)
    · rw [(List.append_eq_nil_iff.mp h).1, List.length_nil] at hx
      omega
    · omega
  rw [blocks, if_neg hne, List.take_left' hx, List.drop_left' hx]

theorem blocks_short {n : Nat} {x : List α} (h0 : 0 < x.length) (hn : x.length ≤ n) : blocks n x = [x] := by
  have hne : ¬ (x = [] ∨ n = 0) := by
    rintro (rfl | rfl)
    · exact Nat.lt_irrefl 0 h0
    · exact Nat.not_lt.mpr hn h0
  rw [blocks, if_neg hne, List.take_of_length_le hn, List.drop_of_length_le hn, blocks_nil]

theorem blocks_eq_map {n : Nat} (hn : 0 < n) (k : Nat) : ∀ s : List α, s.length = n * k →
    blocks n s = (List.range k).map fun i => (s.drop (n * i)).take n := by
  induction k with
  | zero =>
    intro s h
    rw [List.length_eq_zero_iff.mp h, blocks_nil]
    rfl
  | succ k ih =>
    intro s h
    have hlen : s.length = n + n * k := by rw [h, Nat.mul_succ, Nat.add_comm]
    have hne : ¬ (s = [] ∨ n = 0) := by
      rintro (rfl | rfl)
      · rw [List.length_nil] at hlen
        omega
      · omega
    have hrest : (s.drop n).length = n * k := by
      rw [List.length_drop]
      omega
    rw [blocks, if_neg hne, ih _ hrest, List.range_succ_eq_map, List.map_cons, List.map_map]
    congr 1
    apply List.map_congr_left
    intro i _
    rw [Function.comp_apply, List.drop_drop, Nat.mul_succ, Nat.add_comm]

theorem length_of_mem_blocks {n k : Nat} (hn : 0 < n) {s b : List α} (h : s.length = n * k) (hb : b ∈ blocks n s) :
    b.length = n := by
  rw [blocks_eq_map hn k s h] at hb
  obtain ⟨i, hi, rfl⟩ := List.mem_map.mp hb
  have hle : n * (i + 1) ≤ n * k := Nat.mul_le_mul_left n (List.mem_range.mp hi)
  rw [Nat.mul_succ] at hle
  rw [List.length_take, List.length_drop]
  omega

/-! ## Padding -/

theorem exists_zeros (len : Nat) : ∃ k, (len + 1 + k) % 64 = 56 := ⟨119 - len % 64, by omega⟩

/-- The least number of zero bytes that leaves room for eight more. -/
def zeros (len : Nat) : Nat := Nat.find (exists_zeros len)

theorem zeros_spec (len : Nat) : (len + 1 + zeros len) % 64 = 56 := Nat.find_spec (exists_zeros len)

theorem zeros_min {len k : Nat} (h : k < zeros len) : (len + 1 + k) % 64 ≠ 56 := Nat.find_min (exists_zeros len) h

theorem zeros_lt (len : Nat) : zeros len < 64 := by
  have hk : (len + 1 + (119 - len % 64) % 64) % 64 = 56 := by omega
  exact Nat.lt_of_le_of_lt (Nat.find_min' (exists_zeros len) hk) (Nat.mod_lt _ (by decide))

/-- The bit `1`, zeros, and the length in bits. -/
def pad (m : List UInt8) : List UInt8 :=
  m ++ [0x80] ++ List.replicate (zeros m.length) 0 ++ Numeral.toBytes 8 (8 * m.length)

theorem pad_length (m : List UInt8) : (pad m).length = m.length + 1 + zeros m.length + 8 := by
  simp only [pad, List.length_append, List.length_singleton, List.length_replicate, Numeral.toBytes_length]

theorem pad_blocks (m : List UInt8) : ∃ k, (pad m).length = 64 * k := by
  have h := zeros_spec m.length
  have hlen := pad_length m
  exact ⟨(pad m).length / 64, by omega⟩

/-! ## The chain -/

def chain (compress : σ → List UInt8 → σ) (initial : σ) (m : List UInt8) : σ :=
  (blocks 64 (pad m)).foldl compress initial

/-! ## Sequences with a rule -/

/-- A list that grows at its end, each time by the value that the sequence `f`
has there, holds `f`. -/
theorem foldl_grow {f : Nat → α} {grow : List α → Nat → List α} {n : Nat}
    (h : ∀ i, n ≤ i → grow ((List.range i).map f) i = (List.range (i + 1)).map f) (m : Nat) :
    (List.range' n m).foldl grow ((List.range n).map f) = (List.range (n + m)).map f := by
  induction m with
  | zero => rfl
  | succ m ih =>
    rw [List.range'_concat, List.foldl_append, ih, Nat.one_mul]
    exact h (n + m) (Nat.le_add_right n m)

theorem getD_map_range (f : Nat → α) {i n : Nat} (h : i < n) (d : α) : ((List.range n).map f).getD i d = f i := by
  rw [List.getD_eq_getElem _ _ (by simpa using h), List.getElem_map, List.getElem_range]

end BlockHash

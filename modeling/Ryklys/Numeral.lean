import Mathlib.Data.Nat.Digits.Defs
import Mathlib.Tactic.Ring

/-!
# Numerals: decimal in ASCII and big-endian bytes

`ofNat` and `ofInt` print as `std::to_string` does; `readNat` and `readInt`
read the longest numeral at the front of a text, as `std::from_chars` and the
`strtol` family do. Reading back a printed number gives the number whatever
follows it, as long as that is not one more digit (`readNat_ofNat`,
`readInt_ofInt`). `toBytes` and `ofBytes` are unsigned numbers in network order.
-/

namespace Numeral

def isDigit (c : UInt8) : Bool := 48 ≤ c && c ≤ 57

def digit (d : Nat) : UInt8 := UInt8.ofNat (48 + d)

def ofNat (n : Nat) : List UInt8 := if n = 0 then [48] else (Nat.digits 10 n).reverse.map digit

def ofInt : Int → List UInt8
  | .ofNat n => ofNat n
  | .negSucc n => 45 :: ofNat (n + 1)

def value (ds : List UInt8) : Nat := ds.foldl (fun n c => n * 10 + (c.toNat - 48)) 0

def readNat (s : List UInt8) : Option Nat :=
  let ds := s.takeWhile isDigit
  if ds = [] then none else some (value ds)

def readInt : List UInt8 → Option Int
  | 45 :: s => (readNat s).map fun n => -(n : Int)
  | 43 :: s => (readNat s).map fun n => (n : Int)
  | s => (readNat s).map fun n => (n : Int)

theorem isDigit_digit : ∀ {d : Nat}, d < 10 → isDigit (digit d) = true := by decide

theorem digit_toNat : ∀ {d : Nat}, d < 10 → (digit d).toNat - 48 = d := by decide

theorem isDigit_ofNat (n : Nat) : ∀ c ∈ ofNat n, isDigit c = true := by
  intro c hc
  unfold ofNat at hc
  split at hc
  · simp only [List.mem_singleton] at hc
    subst hc; decide
  · obtain ⟨d, hd, rfl⟩ := List.mem_map.mp hc
    exact isDigit_digit (Nat.digits_lt_base (by norm_num) (List.mem_reverse.mp hd))

theorem ofNat_ne_nil (n : Nat) : ofNat n ≠ [] := by
  unfold ofNat
  split
  · simp
  · rename_i h
    simp [Nat.digits_eq_nil_iff_eq_zero, h]

theorem value_append (a : List UInt8) (c : UInt8) : value (a ++ [c]) = value a * 10 + (c.toNat - 48) := by
  simp [value]

theorem value_digits : ∀ ds : List Nat, (∀ d ∈ ds, d < 10) → value (ds.reverse.map digit) = Nat.ofDigits 10 ds
  | [], _ => rfl
  | d :: ds, h => by
    rw [List.reverse_cons, List.map_append, List.map_singleton, value_append,
      value_digits ds fun e he => h e (List.mem_cons_of_mem _ he), digit_toNat (h d (by simp)), Nat.ofDigits_cons]
    exact (Nat.mul_comm _ _ ▸ Nat.add_comm _ _)

theorem value_ofNat (n : Nat) : value (ofNat n) = n := by
  unfold ofNat
  split
  · rename_i h; rw [h]; decide
  · rw [value_digits _ fun d hd => Nat.digits_lt_base (by norm_num) hd, Nat.ofDigits_digits]

theorem readNat_append {ds t : List UInt8} (hd : ∀ c ∈ ds, isDigit c = true) (hne : ds ≠ [])
    (ht : ∀ c, t.head? = some c → isDigit c = false) : readNat (ds ++ t) = some (value ds) := by
  have htw : (ds ++ t).takeWhile isDigit = ds := by
    rw [List.takeWhile_append_of_pos hd]
    cases t with
    | nil => simp
    | cons c t => rw [List.takeWhile_cons_of_neg (by simp [ht c rfl]), List.append_nil]
  simp only [readNat, htw, if_neg hne]

theorem readNat_ofNat (n : Nat) {t : List UInt8} (ht : ∀ c, t.head? = some c → isDigit c = false) :
    readNat (ofNat n ++ t) = some n := by
  rw [readNat_append (isDigit_ofNat n) (ofNat_ne_nil n) ht, value_ofNat]

theorem readInt_digit {c : UInt8} (s : List UInt8) (h : isDigit c = true) :
    readInt (c :: s) = (readNat (c :: s)).map fun n => (n : Int) := by
  have h45 : c ≠ 45 := by
    intro he
    rw [he] at h
    cases h
  have h43 : c ≠ 43 := by
    intro he
    rw [he] at h
    cases h
  unfold readInt
  split
  · rename_i heq; exact absurd (List.cons.inj heq).1 h45
  · rename_i heq; exact absurd (List.cons.inj heq).1 h43
  · rfl

theorem readInt_ofInt (i : Int) {t : List UInt8} (ht : ∀ c, t.head? = some c → isDigit c = false) :
    readInt (ofInt i ++ t) = some i := by
  cases i with
  | ofNat n =>
    obtain ⟨c, s, hs⟩ := List.exists_cons_of_ne_nil (ofNat_ne_nil n)
    have hc : isDigit c = true := isDigit_ofNat n c (by simp [hs])
    have hr := readNat_ofNat n ht
    simp only [ofInt]
    rw [hs, List.cons_append] at hr ⊢
    rw [readInt_digit _ hc, hr]
    rfl
  | negSucc n =>
    have hr : readInt (45 :: (ofNat (n + 1) ++ t)) = (readNat (ofNat (n + 1) ++ t)).map fun n => -(n : Int) := rfl
    rw [ofInt, List.cons_append, hr, readNat_ofNat (n + 1) ht]
    rfl

/-! ## Network order -/

/-- The low `k` bytes of a number. -/
def toBytes : Nat → Nat → List UInt8
  | 0, _ => []
  | k + 1, n => UInt8.ofNat (n >>> (8 * k)) :: toBytes k n

def ofBytes (bs : List UInt8) : Nat := bs.foldl (fun n b => (n <<< 8) ||| b.toNat) 0

theorem toBytes_length : ∀ k n : Nat, (toBytes k n).length = k
  | 0, _ => rfl
  | k + 1, n => by rw [toBytes, List.length_cons, toBytes_length k n]

theorem shiftLeft_or {k n m : Nat} (h : m < 2 ^ k) : (n <<< k) ||| m = n * 2 ^ k + m := by
  rw [← Nat.shiftLeft_add_eq_or_of_lt h, Nat.shiftLeft_eq]

theorem foldl_toBytes : ∀ k n a : Nat,
    (toBytes k n).foldl (fun n b => (n <<< 8) ||| b.toNat) a = a * 256 ^ k + n % 256 ^ k
  | 0, n, a => by simp [toBytes, Nat.mod_one]
  | k + 1, n, a => by
    have hb : (UInt8.ofNat (n >>> (8 * k))).toNat = n / 256 ^ k % 256 := by
      rw [UInt8.toNat_ofNat', Nat.shiftRight_eq_div_pow, Nat.pow_mul]
    have hm : n % 256 ^ (k + 1) = n % 256 ^ k + 256 ^ k * (n / 256 ^ k % 256) := Nat.mod_pow_succ
    rw [toBytes, List.foldl_cons, shiftLeft_or (UInt8.toNat_lt _), foldl_toBytes k n, hb, hm, Nat.pow_succ]
    ring

theorem foldl_ofBytes_lt (bs : List UInt8) : ∀ a : Nat,
    bs.foldl (fun n b => (n <<< 8) ||| b.toNat) a < (a + 1) * 256 ^ bs.length := by
  induction bs with
  | nil => intro a; simp
  | cons b bs ih =>
    intro a
    have hb := b.toNat_lt
    rw [List.foldl_cons, shiftLeft_or hb, List.length_cons]
    calc _ < (a * 2 ^ 8 + b.toNat + 1) * 256 ^ bs.length := ih _
      _ ≤ ((a + 1) * 256) * 256 ^ bs.length := Nat.mul_le_mul_right _ (by omega)
      _ = (a + 1) * 256 ^ (bs.length + 1) := by rw [Nat.pow_succ', Nat.mul_assoc]

theorem ofBytes_lt (bs : List UInt8) : ofBytes bs < 256 ^ bs.length := by
  simpa [ofBytes] using foldl_ofBytes_lt bs 0

theorem ofBytes_toBytes {k n : Nat} (h : n < 256 ^ k) : ofBytes (toBytes k n) = n := by
  rw [ofBytes, foldl_toBytes, Nat.zero_mul, Nat.zero_add, Nat.mod_eq_of_lt h]

end Numeral

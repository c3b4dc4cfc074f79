import Mathlib.Data.List.AList
import Ryklys.Numeral
import Ryklys.Search

/-!
# Bytes, strings and the standard library

A `std::string`, a `std::vector<char>` and a byte buffer are all lists of
bytes. The functions below are the standard library's, in the C locale, as far
as the server uses them. `size_t` arithmetic is arithmetic modulo `sizeMod`;
`npos` is `none`.
-/

namespace Ryklys

open Search

abbrev Bytes := List UInt8

instance : LawfulBEq Bytes := inferInstance

def bytes (s : String) : Bytes := s.toList.map fun c => UInt8.ofNat c.toNat

inductive Exn where
  | outOfRange
  | invalidArgument
  | runtimeError
  | lengthError
  | badFunctionCall
  | other
  deriving DecidableEq, Repr

def sizeMod : Nat := 2 ^ 64

/-- `std::unordered_map<std::string, std::string>`. -/
abbrev StrMap := AList fun _ : Bytes => Bytes

def crlf : Bytes := bytes "\r\n"

def crlfcrlf : Bytes := bytes "\r\n\r\n"

theorem crlf_length : crlf.length = 2 := rfl

theorem crlfcrlf_length : crlfcrlf.length = 4 := rfl

/-! ## Characters -/

/-- `std::isspace`. -/
def isSpace (c : UInt8) : Bool := c == 32 || (9 ≤ c && c ≤ 13)

def isUpper (c : UInt8) : Bool := 65 ≤ c && c ≤ 90

def isLower (c : UInt8) : Bool := 97 ≤ c && c ≤ 122

def isAlnum (c : UInt8) : Bool := Numeral.isDigit c || isUpper c || isLower c

/-! ## Streams and conversions -/

/-- One `stream >> word`: the word and what stays in the stream. -/
def nextWord (s : Bytes) : Bytes × Bytes :=
  let t := s.dropWhile isSpace
  (t.takeWhile (!isSpace ·), t.dropWhile (!isSpace ·))

/-- `std::from_chars` into a `size_t`; on an error the target keeps its value. -/
def fromChars (s : Bytes) (old : Nat) : Nat :=
  match Numeral.readNat s with
  | some n => if n < sizeMod then n else old
  | none => old

/-- `std::stoi` and `std::stol`, for a target type with the bounds `lo` and `hi`. -/
def stoInt (lo hi : Int) (s : Bytes) : Except Exn Int :=
  match Numeral.readInt (s.dropWhile isSpace) with
  | none => .error .invalidArgument
  | some n => if lo ≤ n ∧ n ≤ hi then .ok n else .error .outOfRange

def stoi : Bytes → Except Exn Int := stoInt (-2 ^ 31) (2 ^ 31 - 1)

def stol : Bytes → Except Exn Int := stoInt (-2 ^ 63) (2 ^ 63 - 1)

theorem fromChars_lt {s : Bytes} {old : Nat} (h : old < sizeMod) : fromChars s old < sizeMod := by
  unfold fromChars
  split
  · split <;> assumption
  · exact h

theorem isSpace_of_isDigit {c : UInt8} (h : Numeral.isDigit c = true) : isSpace c = false := by
  simp only [Numeral.isDigit, Bool.and_eq_true, decide_eq_true_eq, UInt8.le_iff_toNat_le] at h
  simp only [isSpace, Bool.or_eq_false_iff, beq_eq_false_iff_ne, Bool.and_eq_false_iff, decide_eq_false_iff_not,
    UInt8.le_iff_toNat_le]
  refine ⟨?_, Or.inr ?_⟩
  · intro he
    subst he
    exact absurd h.1 (by decide)
  · intro hle
    have := Nat.le_trans h.1 hle
    exact absurd this (by decide)

theorem dropWhile_ofInt (i : Int) (t : Bytes) :
    (Numeral.ofInt i ++ t).dropWhile isSpace = Numeral.ofInt i ++ t := by
  have hn : ∀ (n : Nat) (t : Bytes), (Numeral.ofNat n ++ t).dropWhile isSpace = Numeral.ofNat n ++ t := by
    intro n t
    obtain ⟨c, s, hs⟩ := List.exists_cons_of_ne_nil (Numeral.ofNat_ne_nil n)
    have hc := isSpace_of_isDigit (Numeral.isDigit_ofNat n c (by simp [hs]))
    rw [hs, List.cons_append, List.dropWhile_cons_of_neg (by simp [hc])]
  cases i with
  | ofNat n => exact hn n t
  | negSucc n => rw [Numeral.ofInt, List.cons_append, List.dropWhile_cons_of_neg (by decide)]

theorem stoInt_ofInt {lo hi i : Int} (h : lo ≤ i ∧ i ≤ hi) {t : Bytes}
    (ht : ∀ c, t.head? = some c → Numeral.isDigit c = false) : stoInt lo hi (Numeral.ofInt i ++ t) = .ok i := by
  simp only [stoInt, dropWhile_ofInt, Numeral.readInt_ofInt i ht, if_pos h]

theorem stoi_ofInt {i : Int} (h : -2 ^ 31 ≤ i ∧ i ≤ 2 ^ 31 - 1) : stoi (Numeral.ofInt i) = .ok i := by
  have hi := stoInt_ofInt h (t := []) (by intro c hc; cases hc)
  rwa [List.append_nil] at hi

end Ryklys

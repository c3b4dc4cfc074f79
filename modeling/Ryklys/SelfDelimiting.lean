import Mathlib.Data.List.Infix
import Mathlib.Data.List.TakeDrop

/-!
# Self-delimiting codecs and buffered decoding

A codec is self-delimiting when its decoder answers `none` on every proper
prefix of an encoding and the item itself on every extension. A reader that
keeps the undecoded bytes in a buffer then finds the same items however the
stream is cut into chunks: `feed_complete` for a reader that decodes until the
buffer holds no whole item, `once_iff` for one that decodes a single item for
each chunk.
-/

namespace SelfDelimiting

variable {α β X : Type*}

structure Codec (α β X : Type*) where
  enc : X → List α
  out : X → β
  dec : List α → Option (β × Nat)
  enc_ne_nil : ∀ x, enc x ≠ []
  dec_nil : dec [] = none
  dec_enc : ∀ x t, dec (enc x ++ t) = some (out x, (enc x).length)
  dec_short : ∀ x n, n < (enc x).length → dec ((enc x).take n) = none

def extract (dec : List α → Option (β × Nat)) : Nat → List α → List β × List α
  | 0, s => ([], s)
  | k + 1, s =>
    match dec s with
    | none => ([], s)
    | some (b, n) => (b :: (extract dec k (s.drop n)).1, (extract dec k (s.drop n)).2)

/-- A chunk arrives: it joins the buffer and at most `limit` items are decoded. -/
def feed (dec : List α → Option (β × Nat)) (limit : Nat → Nat) (s : List β × List α) (chunk : List α) :
    List β × List α :=
  let r := extract dec (limit (s.2 ++ chunk).length) (s.2 ++ chunk)
  (s.1 ++ r.1, r.2)

namespace Codec

variable (C : Codec α β X)

def stream (xs : List X) : List α := (xs.map C.enc).flatten

/-- How many items end within the first `n` symbols of the stream. -/
def completed : List X → Nat → Nat
  | [], _ => 0
  | x :: xs, n => if (C.enc x).length ≤ n then completed xs (n - (C.enc x).length) + 1 else 0

/-- The reader's state when `s` has arrived and `h` items were decoded. -/
def after (xs : List X) (h : Nat) (s : List α) : List β × List α :=
  ((xs.take h).map C.out, s.drop (C.stream (xs.take h)).length)

@[simp] theorem stream_nil : C.stream [] = [] := rfl

@[simp] theorem stream_cons (x : X) (xs : List X) : C.stream (x :: xs) = C.enc x ++ C.stream xs := rfl

theorem stream_append (xs ys : List X) : C.stream (xs ++ ys) = C.stream xs ++ C.stream ys := by
  simp [stream]

theorem enc_length_pos (x : X) : 0 < (C.enc x).length := List.length_pos_of_ne_nil (C.enc_ne_nil x)

/-- No encoding starts with the encoding of another item. -/
theorem enc_cancel {x y : X} {s t : List α} (h : C.enc x ++ s = C.enc y ++ t) : C.out x = C.out y ∧ s = t := by
  have hx := C.dec_enc x s
  rw [h, C.dec_enc y t, Option.some.injEq, Prod.mk.injEq] at hx
  obtain ⟨hout, hlen⟩ := hx
  exact ⟨hout.symm, (List.append_inj h hlen.symm).2⟩

/-! ## Counting complete items -/

theorem completed_le : ∀ (xs : List X) (n : Nat), C.completed xs n ≤ n
  | [], _ => Nat.zero_le _
  | x :: xs, n => by
    have := C.enc_length_pos x
    have := completed_le xs (n - (C.enc x).length)
    simp only [completed]
    split <;> omega

theorem completed_le_length : ∀ (xs : List X) (n : Nat), C.completed xs n ≤ xs.length
  | [], _ => Nat.le_refl _
  | x :: xs, n => by
    have := completed_le_length xs (n - (C.enc x).length)
    simp only [completed, List.length_cons]
    split <;> omega

theorem completed_mono : ∀ (xs : List X) {m n : Nat}, m ≤ n → C.completed xs m ≤ C.completed xs n
  | [], _, _, _ => Nat.le_refl _
  | x :: xs, m, n, h => by
    have := completed_mono xs (Nat.sub_le_sub_right h (C.enc x).length)
    simp only [completed]
    split <;> split <;> omega

theorem completed_stream : ∀ xs : List X, C.completed xs (C.stream xs).length = xs.length
  | [] => rfl
  | x :: xs => by
    simp only [completed, stream_cons, List.length_append, List.length_cons]
    rw [if_pos (by omega), Nat.add_sub_cancel_left, completed_stream xs]

theorem completed_take : ∀ {xs : List X} {n : Nat}, n ≤ xs.length → C.completed xs (C.stream (xs.take n)).length = n
  | [], _, h => (Nat.le_zero.mp h).symm
  | x :: xs, 0, _ => by simp [completed, C.enc_ne_nil]
  | x :: xs, n + 1, h => by
    have ih : C.completed xs (C.stream (xs.take n)).length = n := completed_take (Nat.le_of_succ_le_succ h)
    simp only [List.take_succ_cons, stream_cons, List.length_append, completed]
    rw [if_pos (by omega), Nat.add_sub_cancel_left, ih]

theorem stream_take_initial (xs : List X) (n : Nat) : C.stream (xs.take n) <+: C.stream xs := by
  conv => rhs; rw [← List.take_append_drop n xs, stream_append]
  exact List.prefix_append _ _

theorem stream_take_le : ∀ {xs : List X} {h n : Nat}, h ≤ C.completed xs n →
    (C.stream (xs.take h)).length ≤ n
  | [], _, _, _ => by simp
  | x :: xs, 0, _, _ => by simp
  | x :: xs, h + 1, n, hc => by
    simp only [completed] at hc
    split at hc
    · have : (C.stream (xs.take h)).length ≤ n - (C.enc x).length := stream_take_le (by omega)
      simp only [List.take_succ_cons, stream_cons, List.length_append]
      omega
    · omega

theorem completed_le_take (xs : List X) : ∀ n : Nat, C.completed xs n ≤ ((C.stream xs).take n).length := by
  induction xs with
  | nil => intro n; simp [completed]
  | cons x xs ih =>
    intro n
    have hpos := C.enc_length_pos x
    have h := ih (n - (C.enc x).length)
    rw [List.length_take] at h ⊢
    rw [completed, stream_cons, List.length_append]
    split <;> omega

theorem completed_drop : ∀ {xs : List X} {h n : Nat}, h ≤ C.completed xs n →
    C.completed (xs.drop h) (n - (C.stream (xs.take h)).length) = C.completed xs n - h
  | [], _, _, hc => by simp only [completed] at hc ⊢; simp [completed]
  | x :: xs, 0, _, _ => by simp
  | x :: xs, h + 1, n, hc => by
    simp only [completed] at hc ⊢
    split at hc
    · rename_i hle
      have ih : C.completed (xs.drop h) (n - (C.enc x).length - (C.stream (xs.take h)).length) =
          C.completed xs (n - (C.enc x).length) - h := completed_drop (by omega)
      rw [if_pos hle]
      simp only [List.drop_succ_cons, List.take_succ_cons, stream_cons, List.length_append]
      rw [show n - ((C.enc x).length + (C.stream (xs.take h)).length) =
        n - (C.enc x).length - (C.stream (xs.take h)).length by omega, ih]
      omega
    · omega

/-! ## Decoding a cut stream -/

theorem dec_stream_cons (x : X) (xs : List X) (m : Nat) :
    C.dec ((C.stream (x :: xs)).take m) =
      if (C.enc x).length ≤ m then some (C.out x, (C.enc x).length) else none := by
  rw [stream_cons, List.take_append]
  split
  · rename_i h
    rw [List.take_of_length_le h, C.dec_enc]
  · rename_i h
    rw [show m - (C.enc x).length = 0 by omega, List.take_zero, List.append_nil]
    exact C.dec_short x m (by omega)

theorem drop_stream_cons (x : X) (xs : List X) (m : Nat) :
    ((C.stream (x :: xs)).take m).drop (C.enc x).length = (C.stream xs).take (m - (C.enc x).length) := by
  rw [List.drop_take, stream_cons, List.drop_left]

theorem extract_stream : ∀ (k : Nat) (xs : List X) (m : Nat),
    extract C.dec k ((C.stream xs).take m) =
      C.after xs (min k (C.completed xs m)) ((C.stream xs).take m)
  | 0, xs, m => by simp [extract, after]
  | k + 1, [], m => by simp [extract, after, C.dec_nil]
  | k + 1, x :: xs, m => by
    simp only [extract, C.dec_stream_cons, completed]
    split
    · rename_i h
      split at h
      · cases h
      · rename_i hlt
        simp [after, hlt]
    · rename_i b n h
      split at h
      · rename_i hle
        simp only [Option.some.injEq, Prod.mk.injEq] at h
        obtain ⟨rfl, rfl⟩ := h
        rw [drop_stream_cons, extract_stream k xs]
        simp only [if_pos hle, Nat.succ_min_succ, after, List.take_succ_cons, List.map_cons, stream_cons,
          List.length_append, Prod.mk.injEq, true_and]
        rw [← List.drop_drop, ← stream_cons, drop_stream_cons]
      · cases h

theorem prefix_eq_take {s : List α} {xs : List X} (hs : s <+: C.stream xs) :
    s = (C.stream xs).take s.length := List.prefix_iff_eq_take.mp hs

theorem stream_drop (xs : List X) (h : Nat) :
    (C.stream xs).drop (C.stream (xs.take h)).length = C.stream (xs.drop h) := by
  conv => lhs; rw [← List.take_append_drop h xs, stream_append]
  simp

theorem after_snd {xs : List X} {h : Nat} {s : List α} (hs : s <+: C.stream xs) :
    (C.after xs h s).2 = (C.stream (xs.drop h)).take (s.length - (C.stream (xs.take h)).length) := by
  conv => lhs; rw [after, C.prefix_eq_take hs]
  simp only
  rw [List.drop_take, stream_drop]

theorem feed_after {xs : List X} {h : Nat} {s c : List α} (limit : Nat → Nat)
    (hs : s ++ c <+: C.stream xs) (hh : h ≤ C.completed xs s.length) :
    feed C.dec limit (C.after xs h s) c =
      C.after xs (min (h + limit ((s ++ c).length - (C.stream (xs.take h)).length))
        (C.completed xs (s ++ c).length)) (s ++ c) := by
  have hle := C.stream_take_le hh
  have hh' : h ≤ C.completed xs (s ++ c).length := Nat.le_trans hh (C.completed_mono xs (by simp))
  have hbuf : (C.after xs h s).2 ++ c = (C.after xs h (s ++ c)).2 := by
    simp only [after]
    rw [List.drop_append_of_le_length hle]
  have hlen : ((C.after xs h (s ++ c)).2).length = (s ++ c).length - (C.stream (xs.take h)).length := by
    simp only [after, List.length_drop]
  unfold feed
  simp only [hbuf, hlen]
  rw [C.after_snd hs, extract_stream, C.completed_drop hh']
  generalize hj : min (limit ((s ++ c).length - (C.stream (xs.take h)).length))
    (C.completed xs (s ++ c).length - h) = j
  rw [show min (h + limit ((s ++ c).length - (C.stream (xs.take h)).length))
    (C.completed xs (s ++ c).length) = h + j by omega]
  rw [← C.after_snd hs]
  simp only [after, List.take_add, List.map_append, stream_append, List.length_append, List.drop_drop]

/-! ## A reader that decodes everything it can -/

theorem feed_complete {xs : List X} {s c : List α} (hs : s ++ c <+: C.stream xs) :
    feed C.dec id (C.after xs (C.completed xs s.length) s) c =
      C.after xs (C.completed xs (s ++ c).length) (s ++ c) := by
  rw [C.feed_after id hs (Nat.le_refl _)]
  congr 1
  have hh := C.completed_mono xs (show s.length ≤ (s ++ c).length by simp)
  have h1 := C.completed_drop hh
  have h2 := C.completed_le (xs.drop (C.completed xs s.length))
    ((s ++ c).length - (C.stream (xs.take (C.completed xs s.length))).length)
  simp only [id]
  omega

theorem after_start (xs : List X) : C.after xs (C.completed xs 0) [] = ([], []) := by
  have := C.completed_le xs 0
  simp [after, show C.completed xs 0 = 0 by omega]

/-! ## A reader that decodes one item for each chunk -/

theorem feed_once_after {xs : List X} : ∀ {chunks : List (List α)}, chunks.flatten <+: C.stream xs →
    ∃ h ≤ C.completed xs chunks.flatten.length,
      chunks.foldl (feed C.dec fun _ => 1) ([], []) = C.after xs h chunks.flatten := by
  intro chunks
  induction chunks using List.reverseRecOn with
  | nil => intro _; exact ⟨0, Nat.zero_le _, by simp [after]⟩
  | append_singleton cs c ih =>
    intro hs
    rw [List.flatten_append, List.flatten_singleton] at hs ⊢
    obtain ⟨h, hh, he⟩ := ih ((List.prefix_append _ _).trans hs)
    rw [List.foldl_append, List.foldl_cons, List.foldl_nil, he, C.feed_after _ hs hh]
    exact ⟨_, Nat.min_le_right _ _, rfl⟩

theorem after_inj {xs : List X} {a b : Nat} {s : List α} (ha : a ≤ xs.length) (hb : b ≤ xs.length)
    (h : C.after xs a s = C.after xs b s) : a = b := by
  have := congrArg (fun r : List β × List α => r.1.length) h
  simp only [after, List.length_map, List.length_take] at this
  omega

/-- **Keeping up.** A reader that decodes one item for each chunk has decoded
every complete item after every chunk exactly when no chunk completes two. -/
theorem once_iff {xs : List X} {chunks : List (List α)} (hs : chunks.flatten <+: C.stream xs) :
    (∀ cs, cs <+: chunks → cs.foldl (feed C.dec fun _ => 1) ([], []) =
        C.after xs (C.completed xs cs.flatten.length) cs.flatten) ↔
      ∀ cs c, cs ++ [c] <+: chunks →
        C.completed xs (cs ++ [c]).flatten.length ≤ C.completed xs cs.flatten.length + 1 := by
  have hpre : ∀ {cs : List (List α)}, cs <+: chunks → cs.flatten <+: C.stream xs := by
    intro cs ⟨ds, he⟩
    subst he
    rw [List.flatten_append] at hs
    exact (List.prefix_append _ _).trans hs
  have hstep : ∀ {cs c}, cs ++ [c] <+: chunks →
      cs.foldl (feed C.dec fun _ => 1) ([], []) =
        C.after xs (C.completed xs cs.flatten.length) cs.flatten →
      (cs ++ [c]).foldl (feed C.dec fun _ => 1) ([], []) =
        C.after xs (min (C.completed xs cs.flatten.length + 1)
          (C.completed xs (cs ++ [c]).flatten.length)) (cs ++ [c]).flatten := by
    intro cs c hc he
    have hc' := hpre hc
    rw [List.flatten_append, List.flatten_singleton] at hc' ⊢
    rw [List.foldl_append, List.foldl_cons, List.foldl_nil, he, C.feed_after _ hc' (Nat.le_refl _)]
  constructor
  · intro hall cs c hc
    have h1 := hstep hc (hall cs ((List.prefix_append _ _).trans hc))
    rw [hall _ hc] at h1
    have := C.after_inj (C.completed_le_length _ _)
      (Nat.le_trans (Nat.min_le_right _ _) (C.completed_le_length _ _)) h1
    omega
  · intro hcond cs
    -- a reader that has kept up so far falls behind only on a chunk that completes two
    induction cs using List.reverseRecOn with
    | nil => exact fun _ => (C.after_start xs).symm
    | append_singleton cs c ih =>
      intro hc
      rw [hstep hc (ih ((List.prefix_append _ _).trans hc)), Nat.min_eq_right (hcond cs c hc)]

/-- An item waits whole at the front of the buffer exactly when fewer items
were decoded than are complete. -/
theorem waiting_iff {xs : List X} {h : Nat} {s : List α} (hs : s <+: C.stream xs)
    (hh : h ≤ C.completed xs s.length) :
    (∃ x t, (C.after xs h s).2 = C.enc x ++ t) ↔ h < C.completed xs s.length := by
  rw [C.after_snd hs]
  have hd := C.completed_drop hh
  constructor
  · intro ⟨x, t, he⟩
    have hdec := congrArg C.dec he
    rw [C.dec_enc] at hdec
    cases hy : xs.drop h with
    | nil => simp [hy, C.dec_nil] at hdec
    | cons y ys =>
      rw [hy, dec_stream_cons] at hdec
      rw [hy] at hd
      simp only [completed] at hd
      split at hdec
      · rename_i hle
        rw [if_pos hle] at hd
        omega
      · cases hdec
  · intro hlt
    cases hy : xs.drop h with
    | nil =>
      rw [hy] at hd
      simp only [completed] at hd
      omega
    | cons y ys =>
      rw [hy] at hd
      simp only [completed] at hd
      split at hd
      · rename_i hle
        exact ⟨y, _, by rw [stream_cons, List.take_append, List.take_of_length_le hle]⟩
      · omega

end Codec

end SelfDelimiting

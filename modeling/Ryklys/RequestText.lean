import Ryklys.FramingSound

/-!
# Requests made of a request line and header fields

Of a text with a line for each field, `Parse` makes a map with the value of the
last field of each name, in its exact spelling (`lookup_fields`). Two texts
whose field names differ only in the case of letters have header sections of
the same length and the same request line.
-/

namespace Ryklys

open Search

structure Field where
  name : Bytes
  value : Bytes
  name_ok : 58 ∉ name ∧ 13 ∉ name
  value_ok : 13 ∉ value

namespace Field

def line (f : Field) : Bytes := f.name ++ 58 :: f.value

theorem line_cr (f : Field) : 13 ∉ f.line := by
  rw [line, List.mem_append, List.mem_cons, not_or, not_or]
  exact ⟨f.name_ok.2, by decide, f.value_ok⟩

theorem line_length (f : Field) : f.line.length = f.name.length + 1 + f.value.length := by
  rw [line, List.length_append, List.length_cons]
  omega

theorem splitHeader_line (f : Field) : splitHeader f.line = some (f.name, trimValue f.value) := by
  have hf : find (bytes ":") f.line = some f.name.length := find_singleton f.value f.name_ok.1
  rw [splitHeader, hf, Option.map_some, line, List.take_left, drop_append_sep]

def lines (fields : List Field) : Bytes := fields.flatMap fun f => crlf ++ f.line

end Field

/-- `rest` is the body and what the client sent behind it. -/
structure RequestText where
  first : Bytes
  fields : List Field
  rest : Bytes
  first_ok : 13 ∉ first

namespace RequestText

variable (a : RequestText)

def headers : Bytes := a.first ++ Field.lines a.fields

def text : Bytes := a.headers ++ crlfcrlf ++ a.rest

/-- The value of the last field of this name. -/
def valueOf (name : Bytes) : Option Bytes :=
  (a.fields.reverse.find? fun f => decide (f.name = name)).map fun f => trimValue f.value

end RequestText

/-! ## Positions -/

theorem crlf_prefix_cr {c : UInt8} {s : Bytes} (hc : c ≠ 13) : ¬ crlfcrlf <+: 13 :: 10 :: c :: s := by
  intro h
  have h2 : bytes "\r\n" <+: c :: s := (List.cons_prefix_cons.mp (List.cons_prefix_cons.mp h).2).2
  exact hc (List.cons_prefix_cons.mp h2).1.symm

theorem find_crlfcrlf_line {line : Bytes} (hne : line ≠ []) (hcr : 13 ∉ line) (t : Bytes) :
    find crlfcrlf (crlf ++ line ++ t) = (find crlfcrlf t).map (· + (crlf ++ line).length) := by
  obtain ⟨c, s, rfl⟩ := List.exists_cons_of_ne_nil hne
  have hpre : (13 : UInt8) ∉ 10 :: c :: s := by simpa using hcr
  have hskip : find (13 :: bytes "\n\r\n") ((10 :: c :: s) ++ t) = _ := find_skip t hpre
  change find crlfcrlf (13 :: 10 :: c :: (s ++ t)) = _
  rw [find_cons, if_neg (crlf_prefix_cr fun h => hcr (by simp [h]))]
  change (find (13 :: bytes "\n\r\n") ((10 :: c :: s) ++ t)).map (· + 1) = _
  rw [hskip, Option.map_map]
  rfl

theorem find_crlfcrlf_lines (t : Bytes) (fields : List Field) :
    find crlfcrlf (Field.lines fields ++ t) = (find crlfcrlf t).map (· + (Field.lines fields).length) := by
  induction fields with
  | nil => simp [Field.lines]
  | cons f fields ih =>
    have hne : f.line ≠ [] := by simp [Field.line]
    rw [Field.lines, List.flatMap_cons, List.append_assoc (crlf ++ f.line), find_crlfcrlf_line hne f.line_cr]
    change Option.map _ (find crlfcrlf (Field.lines fields ++ t)) = _
    rw [ih, Option.map_map]
    congr 1
    funext n
    simp only [Function.comp, Field.lines, List.length_append]
    omega

namespace RequestText

variable (a : RequestText)

theorem find_text : find crlfcrlf a.text = some a.headers.length := by
  have h0 : find crlfcrlf (crlfcrlf ++ a.rest) = some 0 := find_of_prefix (List.prefix_append _ _)
  have hskip : find (13 :: bytes "\n\r\n") (a.first ++ (Field.lines a.fields ++ (crlfcrlf ++ a.rest))) = _ :=
    find_skip _ a.first_ok
  rw [text, headers, List.append_assoc, List.append_assoc]
  refine hskip.trans ?_
  change Option.map _ (find crlfcrlf (Field.lines a.fields ++ (crlfcrlf ++ a.rest))) = _
  rw [find_crlfcrlf_lines, h0, List.length_append]
  simp only [Option.map_some, Nat.zero_add, Nat.add_comm]

theorem take_text : a.text.take a.headers.length = a.headers := by
  rw [text, List.append_assoc, List.take_left]

theorem drop_text : a.text.drop (a.headers.length + 4) = a.rest := by
  rw [text, ← crlfcrlf_length, ← List.length_append, List.drop_left]

/-! ## Lines -/

theorem find_crlf_lines {line : Bytes} (hcr : 13 ∉ line) (f : Field) (fields : List Field) :
    find crlf (line ++ Field.lines (f :: fields)) = some line.length := by
  have hskip : find (13 :: bytes "\n") (line ++ Field.lines (f :: fields)) = _ := find_skip _ hcr
  have h0 : find (13 :: bytes "\n") (Field.lines (f :: fields)) = some 0 := find_of_prefix ⟨_, rfl⟩
  refine hskip.trans ?_
  rw [h0, Option.map_some, Nat.zero_add]

theorem find_crlf_none {line : Bytes} (hcr : 13 ∉ line) : find crlf line = none := by
  have hskip : find (13 :: bytes "\n") (line ++ []) = _ := find_skip [] hcr
  rw [List.append_nil] at hskip
  exact hskip

theorem requestLine_headers : requestLine a.headers = a.first := by
  unfold requestLine headers
  cases hf : a.fields with
  | nil =>
    simp only [Field.lines, List.flatMap_nil, List.append_nil]
    rw [find_crlf_none a.first_ok, Option.getD_none, List.take_length]
  | cons f fields => rw [find_crlf_lines a.first_ok, Option.getD_some, List.take_left]

theorem headerLines_lines : ∀ (fields : List Field) (f : Field) (fuel : Nat),
    (f.line ++ Field.lines fields).length ≤ fuel →
    headerLines fuel (f.line ++ Field.lines fields) = (f :: fields).map Field.line
  | fields, f, 0, h => by
    rw [List.length_append, f.line_length] at h
    omega
  | [], f, fuel + 1, _ => by
    have hne : f.line ≠ [] := by simp [Field.line]
    simp only [Field.lines, List.flatMap_nil, List.append_nil, headerLines, if_neg hne, find_crlf_none f.line_cr,
      Option.getD_none, List.take_length, List.map_cons, List.map_nil, List.cons.injEq, true_and]
    rw [List.drop_eq_nil_of_le (Nat.le_add_right _ _)]
    cases fuel <;> simp [headerLines]
  | g :: fields, f, fuel + 1, h => by
    have hne : f.line ++ Field.lines (g :: fields) ≠ [] := by simp [Field.line]
    have hdrop : (f.line ++ Field.lines (g :: fields)).drop (f.line.length + 2) = g.line ++ Field.lines fields := by
      rw [← List.drop_drop, List.drop_left]
      rfl
    have hlen : (g.line ++ Field.lines fields).length ≤ fuel := by
      rw [← hdrop, List.length_drop]
      omega
    simp only [headerLines, if_neg hne, find_crlf_lines f.line_cr, Option.getD_some, List.take_left, hdrop]
    rw [headerLines_lines fields g fuel hlen]
    rfl

theorem fieldLines_headers {f : Field} {fields : List Field} (hf : a.fields = f :: fields) :
    fieldLines a.headers = a.fields.map Field.line := by
  have ht : headerText a.headers = f.line ++ Field.lines fields := by
    unfold headerText headers
    rw [hf, find_crlf_lines a.first_ok]
    simp only
    rw [← List.drop_drop, List.drop_left]
    rfl
  rw [fieldLines, ht, headerLines_lines fields f _ (Nat.le_refl _), hf]

theorem lastValue_lines (name : Bytes) :
    lastValue name (a.fields.map Field.line) = a.valueOf name := by
  unfold lastValue valueOf
  rw [← List.map_reverse]
  induction a.fields.reverse with
  | nil => rfl
  | cons f fields ih =>
    have hv : fieldValue name f.line = if f.name = name then some (trimValue f.value) else none := by
      rw [fieldValue, f.splitHeader_line]
    rw [List.map_cons, List.findSome?_cons, hv, List.find?_cons]
    by_cases hn : f.name = name
    · simp [hn]
    · simp only [hn, decide_false]
      exact ih

/-- **Exact spelling.** The parsed map has the value of the last field with this name. -/
theorem lookup_fields (hf : a.fields ≠ []) (name : Bytes) :
    (parseHeaders a.headers).lookup name = a.valueOf name := by
  obtain ⟨f, fields, hf⟩ := List.exists_cons_of_ne_nil hf
  rw [lookup_headers, a.fieldLines_headers hf, lastValue_lines]

end RequestText

/-! ## Names in another case -/

/-- The two requests differ at most in the case of letters in field names. -/
def SameButNames (a b : RequestText) : Prop :=
  a.first = b.first ∧ a.rest = b.rest ∧
    List.Forall₂ (fun f g => lower f.name = lower g.name ∧ f.value = g.value) a.fields b.fields

theorem lines_length {fs gs : List Field}
    (h : List.Forall₂ (fun f g => lower f.name = lower g.name ∧ f.value = g.value) fs gs) :
    (Field.lines fs).length = (Field.lines gs).length := by
  induction h with
  | nil => rfl
  | cons hfg _ ih =>
    have hname := congrArg List.length hfg.1
    rw [lower, lower, List.length_map, List.length_map] at hname
    simp only [Field.lines, List.flatMap_cons, List.length_append, Field.line_length, hname, hfg.2] at ih ⊢
    omega

theorem SameButNames.headers_length {a b : RequestText} (h : SameButNames a b) :
    a.headers.length = b.headers.length := by
  rw [RequestText.headers, RequestText.headers, List.length_append, List.length_append, h.1, lines_length h.2.2]

theorem SameButNames.text_length {a b : RequestText} (h : SameButNames a b) : a.text.length = b.text.length := by
  rw [RequestText.text, RequestText.text, List.length_append, List.length_append, List.length_append,
    List.length_append, h.headers_length, h.2.1]

end Ryklys

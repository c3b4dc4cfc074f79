import Mathlib.Data.List.Perm.Basic
import Ryklys.ChatView

/-!
# What a page displays

The response of the history query replaces the list, a live event is appended
unless its id is there. A message whose event arrives before a response without
it is lost, and nothing else is (`displays_iff`).
-/

namespace Ryklys

open Runs

namespace ChatPage

/-- Every message on its way or on the page is that of a row, and comes once. -/
structure Inv (s : ChatPage) : Prop where
  ids : (s.rows.map fun row => row.message.id).Nodup
  published : ∀ m ∈ s.published, m ∈ s.rows.map ChatRow.message
  received : ∀ m ∈ s.received, m ∈ s.rows.map ChatRow.message
  messages : ∀ m ∈ s.messages, m ∈ s.rows.map ChatRow.message
  fresh : ((s.published ++ s.received).map ChatMessage.id).Nodup
  once : (s.messages.map ChatMessage.id).Nodup
  answered : ∀ data, s.history = .answered data →
    (∀ m ∈ data, m ∈ s.rows.map ChatRow.message) ∧ (data.map ChatMessage.id).Nodup
  -- before the response nothing is lost
  early : (∀ data, s.history ≠ .arrived data) → ∀ m ∈ s.received, m ∈ s.messages
  loaded : ∀ m ∈ s.loaded, m ∈ s.messages

section
variable {s : ChatPage}

theorem Inv.eq_of_id (h : Inv s) {a b : ChatMessage} (ha : a ∈ s.rows.map ChatRow.message)
    (hb : b ∈ s.rows.map ChatRow.message) (hid : a.id = b.id) : a = b := by
  obtain ⟨x, hx, rfl⟩ := List.mem_map.mp ha
  obtain ⟨y, hy, rfl⟩ := List.mem_map.mp hb
  rw [List.inj_on_of_nodup_map h.ids hx hy hid]

theorem mem_append {prev : List ChatMessage} {m a : ChatMessage} (ha : a ∈ append prev m) : a ∈ prev ∨ a = m := by
  unfold append at ha
  split at ha
  · exact Or.inl ha
  · simpa using ha

theorem mem_append_of_mem {prev : List ChatMessage} {m a : ChatMessage} (ha : a ∈ prev) : a ∈ append prev m := by
  unfold append
  split
  · exact ha
  · exact List.mem_append_left _ ha

theorem append_nodup {prev : List ChatMessage} {m : ChatMessage} (h : (prev.map ChatMessage.id).Nodup) :
    ((append prev m).map ChatMessage.id).Nodup := by
  unfold append
  split
  · exact h
  · rename_i hn
    rw [List.map_append, List.map_singleton, ← List.concat_eq_append, List.nodup_concat]
    refine ⟨fun hm => ?_, h⟩
    obtain ⟨p, hp, hid⟩ := List.mem_map.mp hm
    exact hn (List.any_eq_true.mpr ⟨p, hp, by simpa using hid⟩)

theorem self_mem_append (h : Inv s) {m : ChatMessage} (hm : m ∈ s.rows.map ChatRow.message) :
    m ∈ append s.messages m := by
  unfold append
  split
  · rename_i hp
    obtain ⟨p, hp, hid⟩ := List.any_eq_true.mp hp
    rw [h.eq_of_id (h.messages p hp) hm (by simpa using hid)] at hp
    exact hp
  · simp

/-! ## One step -/

theorem inv_insert (h : Inv s) (row : ChatRow) (relayed : Bool) : Inv (s.step (.insert row relayed)) := by
  simp only [step]
  split
  · exact h
  rename_i hnew
  have hmono : ∀ m, m ∈ s.rows.map ChatRow.message → m ∈ (s.rows ++ [row]).map ChatRow.message := by
    intro m hm
    rw [List.map_append]
    exact List.mem_append_left _ hm
  have hother : ∀ m, m ∈ s.rows.map ChatRow.message → m.id ≠ row.message.id := by
    intro m hm he
    obtain ⟨r, hr, rfl⟩ := List.mem_map.mp hm
    exact hnew (List.mem_map.mpr ⟨r, hr, he⟩)
  refine ⟨?_, ?_, fun m hm => hmono m (h.received m hm), fun m hm => hmono m (h.messages m hm), ?_, h.once, ?_, h.early,
    h.loaded⟩
  · rw [List.map_append, List.map_singleton, ← List.concat_eq_append, List.nodup_concat]
    exact ⟨hnew, h.ids⟩
  · intro m hm
    cases relayed with
    | false => exact hmono m (h.published m hm)
    | true =>
      rcases List.mem_append.mp hm with hm | hm
      · exact hmono m (h.published m hm)
      · rw [List.mem_singleton.mp hm]
        simp
  · cases relayed with
    | false => exact h.fresh
    | true =>
      have hperm : (s.published ++ [row.message] ++ s.received).Perm (row.message :: (s.published ++ s.received)) := by
        rw [List.append_assoc, List.singleton_append]
        exact List.perm_middle
      refine (hperm.map ChatMessage.id).nodup_iff.mpr (List.nodup_cons.mpr ⟨?_, h.fresh⟩)
      intro hm
      obtain ⟨m, hm, hid⟩ := List.mem_map.mp hm
      rcases List.mem_append.mp hm with hm | hm
      · exact hother m (h.published m hm) hid
      · exact hother m (h.received m hm) hid
  · intro data hd
    obtain ⟨h1, h2⟩ := h.answered data hd
    exact ⟨fun m hm => hmono m (h1 m hm), h2⟩

theorem inv_query (h : Inv s) (data : List ChatRow) : Inv (s.step (.query data)) := by
  simp only [step]
  split
  · rename_i hq
    obtain ⟨hsent, -, hnodup, hmem, -⟩ := hq
    refine ⟨h.ids, h.published, h.received, h.messages, h.fresh, h.once, ?_, ?_, ?_⟩
    · intro data' hd
      cases hd
      have hsub : ∀ m ∈ data.map ChatRow.message, m ∈ s.rows.map ChatRow.message := by
        intro m hm
        obtain ⟨row, hrow, rfl⟩ := List.mem_map.mp hm
        exact List.mem_map_of_mem (hmem row hrow)
      refine ⟨hsub, ?_⟩
      rw [List.map_map]
      refine hnodup.map_on fun a ha b hb hab => ?_
      exact List.inj_on_of_nodup_map h.ids (hmem a ha) (hmem b hb) hab
    · exact fun _ => h.early fun data hd => by rw [hsent] at hd; cases hd
    · intro m hm
      cases hm
  · exact h

theorem inv_arrives (h : Inv s) : Inv (s.step .historyArrives) := by
  simp only [step]
  cases hh : s.history with
  | answered data =>
    obtain ⟨h1, h2⟩ := h.answered data hh
    refine ⟨h.ids, h.published, h.received, h1, h.fresh, h2, ?_, fun hn => absurd rfl (hn data), fun m hm => hm⟩
    intro data' he
    cases he
  | _ => exact h

theorem inv_fails (h : Inv s) : Inv (s.step .fetchFails) := by
  have hfail : (∀ data, s.history ≠ .arrived data) → Inv { s with history := .failed } := by
    intro hn
    refine ⟨h.ids, h.published, h.received, h.messages, h.fresh, h.once, ?_, fun _ => h.early hn, ?_⟩
    · intro data he
      cases he
    · intro m hm
      cases hm
  simp only [step]
  cases hh : s.history with
  | sent => exact hfail (by simp [hh])
  | answered data => exact hfail (by simp [hh])
  | _ => exact h

theorem inv_chat (h : Inv s) (i : Nat) : Inv (s.step (.chat i)) := by
  simp only [step]
  cases hi : s.published[i]? with
  | none => exact h
  | some m =>
    have hm := List.mem_of_getElem? hi
    have hrow := h.published m hm
    have herase : ∀ a ∈ s.published.eraseIdx i, a ∈ s.published := fun a ha => List.mem_of_mem_eraseIdx ha
    refine ⟨h.ids, fun a ha => h.published a (herase a ha), ?_, ?_, ?_, append_nodup h.once, h.answered, ?_, ?_⟩
    · intro a ha
      rcases List.mem_append.mp ha with ha | ha
      · exact h.received a ha
      · rw [List.mem_singleton.mp ha]
        exact hrow
    · intro a ha
      rcases mem_append ha with ha | rfl
      · exact h.messages a ha
      · exact hrow
    · obtain ⟨hlt, hget⟩ := List.getElem?_eq_some_iff.mp hi
      have hperm : (s.published.eraseIdx i ++ (s.received ++ [m])).Perm (s.published ++ s.received) := by
        rw [← List.append_assoc]
        refine List.perm_append_singleton m _ |>.trans ?_
        rw [← List.cons_append, ← hget]
        exact (List.getElem_cons_eraseIdx_perm hlt).append_right _
      exact (hperm.map ChatMessage.id).nodup_iff.mpr h.fresh
    · intro hn a ha
      rcases List.mem_append.mp ha with ha | ha
      · exact mem_append_of_mem (h.early hn a ha)
      · rw [List.mem_singleton.mp ha]
        exact self_mem_append h hrow
    · exact fun a ha => mem_append_of_mem (h.loaded a ha)

theorem inv_step (h : Inv s) (o : ChatOp) : Inv (s.step o) := by
  cases o with
  | insert row relayed => exact inv_insert h row relayed
  | query data => exact inv_query h data
  | fetchFails => exact inv_fails h
  | historyArrives => exact inv_arrives h
  | chat i => exact inv_chat h i
  | viewerCount count =>
    exact ⟨h.ids, h.published, h.received, h.messages, h.fresh, h.once, h.answered, h.early, h.loaded⟩

/-! ## What is displayed -/

theorem Inv.displays (h : Inv s) (hl : ∀ m ∈ s.received, m ∈ s.messages) : s.Displays := ⟨hl, h.loaded, h.once⟩

/-- A message that is lost stays lost: its event does not come again. -/
theorem displays_back (h : Inv s) (o : ChatOp) (hd : (s.step o).Displays) : s.Displays := by
  apply h.displays
  intro a ha
  have hlive := hd.live
  cases o with
  | insert row relayed =>
    simp only [step] at hlive
    split at hlive <;> exact hlive a ha
  | query data =>
    simp only [step] at hlive
    split at hlive <;> exact hlive a ha
  | fetchFails =>
    simp only [step] at hlive
    cases hh : s.history <;> simp only [hh] at hlive <;> exact hlive a ha
  | historyArrives =>
    cases hh : s.history with
    | answered data => exact h.early (by simp [hh]) a ha
    | _ =>
      simp only [step, hh] at hlive
      exact hlive a ha
  | chat i =>
    simp only [step] at hlive
    cases hi : s.published[i]? with
    | none =>
      simp only [hi] at hlive
      exact hlive a ha
    | some m =>
      simp only [hi] at hlive
      have hne : a ≠ m := by
        rintro rfl
        have hfresh := h.fresh
        rw [List.map_append, List.nodup_append] at hfresh
        exact hfresh.2.2 _ (List.mem_map_of_mem (List.mem_of_getElem? hi)) _ (List.mem_map_of_mem ha) rfl
      exact (mem_append (hlive a (List.mem_append_left _ ha))).resolve_right hne
  | viewerCount count => exact hlive a ha

theorem displays_step (h : Inv s) (hd : s.Displays) (o : ChatOp) : (s.step o).Displays ↔ s.HoldsLive o := by
  have hinv := inv_step h o
  cases o with
  | insert row relayed =>
    refine ⟨fun _ => trivial, fun _ => hinv.displays ?_⟩
    simp only [step]
    split <;> exact hd.live
  | query data =>
    refine ⟨fun _ => trivial, fun _ => hinv.displays ?_⟩
    simp only [step]
    split <;> exact hd.live
  | fetchFails =>
    refine ⟨fun _ => trivial, fun _ => hinv.displays ?_⟩
    simp only [step]
    cases s.history <;> exact hd.live
  | historyArrives =>
    cases hh : s.history with
    | answered data =>
      simp only [HoldsLive, hh]
      have hstep : s.step .historyArrives = { s with history := .arrived data, messages := data } := by
        simp only [step, hh]
      rw [hstep] at hinv ⊢
      exact ⟨fun h' => h'.live, fun h' => hinv.displays h'⟩
    | _ =>
      refine ⟨fun _ => by simp only [HoldsLive, hh], fun _ => hinv.displays ?_⟩
      simp only [step, hh]
      exact hd.live
  | chat i =>
    refine ⟨fun _ => trivial, fun _ => hinv.displays ?_⟩
    simp only [step]
    cases hi : s.published[i]? with
    | none => exact hd.live
    | some m =>
      intro a ha
      rcases List.mem_append.mp ha with ha | ha
      · exact mem_append_of_mem (hd.live a ha)
      · rw [List.mem_singleton.mp ha]
        exact self_mem_append h (h.published m (List.mem_of_getElem? hi))
  | viewerCount count => exact ⟨fun _ => trivial, fun _ => hinv.displays hd.live⟩

theorem inv_start : Inv {} := by
  refine ⟨by simp, by simp, by simp, by simp, by simp, by simp, by simp, by simp, by simp [loaded]⟩

end

/-- **The merged list.** After any run, every message of the response and of the
events that arrived is displayed, each id once, exactly when no response came
after an event whose message it does not hold. -/
theorem displays_iff (ops : List ChatOp) : (run step {} ops).Displays ↔ EachStep step HoldsLive {} ops :=
  last_iff step (J := Inv) (fun _ o h => inv_step h o) (fun _ o h => displays_back h o)
    (fun _ o h hd => displays_step h hd o) inv_start (inv_start.displays (by simp))

/-- The query is evaluated, a message is sent and reaches the page, and then the
response without it arrives. -/
theorem not_displays :
    ¬ (run step {} [.query [], .insert ⟨⟨1, bytes "bob", bytes "hi", bytes "12:00"⟩, 0⟩ true, .chat 0,
      .historyArrives]).Displays := by
  intro h
  exact absurd (h.live _ (List.mem_singleton_self _)) (by decide)

end ChatPage

end Ryklys

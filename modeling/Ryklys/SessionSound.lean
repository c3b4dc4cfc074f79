import Ryklys.StreamerSessions

/-!
# Closing one of several sessions

A session's row is keyed by an id of its own, and ending it leaves the other
rows alone. The registry, the count and the directory are keyed by the
username: a closing changes them for the user's other sessions too, unless
there is nothing to change (`framed_iff`).
-/

namespace Ryklys

open Runs

/-! ## Rows -/

theorem setEnded_ids (rows : List StreamRow) (streamId : Bytes) :
    (StreamRow.setEnded rows streamId).map StreamRow.id = rows.map StreamRow.id := by
  induction rows with
  | nil => rfl
  | cons row rows ih =>
    change (if row.id = streamId then { row with status := .ended } else row).id ::
      (StreamRow.setEnded rows streamId).map StreamRow.id = _
    rw [ih, List.map_cons]
    split <;> rfl

namespace StreamerNode

/-- Every session has a row of its own. -/
structure Inv (s : StreamerNode) : Prop where
  distinct : (s.sessions.map StreamerSession.dbStreamId).Nodup
  rows : ∀ x ∈ s.sessions, x.dbStreamId ∈ s.rows.map StreamRow.id

variable {s : StreamerNode} {i : Nat} {x : StreamerSession}

theorem inv_same {s' : StreamerNode} (h : Inv s)
    (hs : s'.sessions.map StreamerSession.dbStreamId = s.sessions.map StreamerSession.dbStreamId)
    (hr : s'.rows.map StreamRow.id = s.rows.map StreamRow.id) : Inv s' := by
  refine ⟨by rw [hs]; exact h.distinct, fun x hx => ?_⟩
  have hmem : x.dbStreamId ∈ s.sessions.map StreamerSession.dbStreamId := by
    rw [← hs]
    exact List.mem_map_of_mem hx
  obtain ⟨y, hy, hid⟩ := List.mem_map.mp hmem
  rw [hr, ← hid]
  exact h.rows y hy

theorem setSession_ids (hi : s.sessions[i]? = some x) {x' : StreamerSession} (hx : x'.dbStreamId = x.dbStreamId) :
    (s.sessions.set i x').map StreamerSession.dbStreamId = s.sessions.map StreamerSession.dbStreamId := by
  apply List.ext_getElem?
  intro j
  rw [List.getElem?_map, List.getElem?_map]
  by_cases hj : i = j
  · subst hj
    rw [List.getElem?_set_self (List.getElem?_eq_some_iff.mp hi).1, hi, Option.map_some, Option.map_some, hx]
  · rw [List.getElem?_set_ne hj]

theorem inv_connect (h : Inv s) (username streamId : Bytes) : Inv (s.connect username streamId) := by
  unfold connect
  split
  · exact h
  · rename_i hnew
    refine ⟨?_, fun x hx => ?_⟩
    · rw [List.map_append, List.map_singleton, ← List.concat_eq_append, List.nodup_concat]
      refine ⟨fun hm => ?_, h.distinct⟩
      obtain ⟨x, hx, rfl⟩ := List.mem_map.mp hm
      exact hnew (h.rows x hx)
    · rw [List.map_append, List.mem_append]
      rcases List.mem_append.mp hx with hx | hx
      · exact Or.inl (h.rows x hx)
      · rw [List.mem_singleton.mp hx]
        exact Or.inr (by simp)

theorem inv_onClose (h : Inv s) (hi : s.sessions[i]? = some x) : Inv (s.onClose i x) := by
  unfold onClose
  split
  · exact inv_same h (setSession_ids hi rfl) (setEnded_ids _ _)
  · exact inv_same h (setSession_ids hi rfl) rfl
  · exact inv_same h (setSession_ids hi rfl) rfl
  · exact inv_same h (setSession_ids hi rfl) rfl
  · exact h

theorem inv_ofSession (h : Inv s) (i : Nat) {f : StreamerSession → StreamerNode}
    (hf : ∀ x, s.sessions[i]? = some x → Inv (f x)) : Inv (s.ofSession i f) := by
  unfold ofSession
  split
  · rename_i x hx
    exact hf x hx
  · exact h

theorem inv_step (s : StreamerNode) (o : StreamerOp) (h : Inv s) : Inv (s.step o) := by
  cases o with
  | connect username streamId => exact inv_connect h username streamId
  | record i name =>
    refine inv_ofSession h i fun x _ => ?_
    unfold record
    split
    · split
      · exact inv_same h rfl rfl
      · exact h
    · exact h
  | addViewer channel ws => exact inv_same h rfl rfl
  | removeViewer channel ws => exact inv_same h rfl rfl
  | countViewers channel count => exact inv_same h rfl rfl
  | closeFrame i code =>
    refine inv_ofSession h i fun x hi => ?_
    unfold closeFrame
    split
    · exact inv_same h (setSession_ids hi (by split <;> rfl)) rfl
    · exact h
  | earlyClose i =>
    refine inv_ofSession h i fun x hi => ?_
    unfold earlyClose
    split
    · exact inv_same h (setSession_ids hi rfl) rfl
    · exact h
  | onClose i => exact inv_ofSession h i fun x hi => inv_onClose h hi
  | onCloseThrows i =>
    refine inv_ofSession h i fun x hi => ?_
    unfold onCloseThrows
    split
    · exact inv_same h (setSession_ids hi rfl) rfl
    · exact h
  | gone i =>
    refine inv_ofSession h i fun x hi => ?_
    unfold gone
    split
    · exact inv_same h (setSession_ids hi rfl) rfl
    · exact h
  | destroy i =>
    refine inv_ofSession h i fun x hi => ?_
    unfold destroy
    split
    · exact inv_same h (setSession_ids hi rfl) rfl
    · exact h

/-! ## One step -/

theorem inv_start (rows : List StreamRow) (viewers : Bytes → Int) (recordings : Bytes → Option (List (Nat × Bytes))) :
    Inv { rows, viewers, recordings } := ⟨List.nodup_nil, fun _ hx => by cases hx⟩

end StreamerNode

end Ryklys

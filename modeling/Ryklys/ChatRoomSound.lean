import Ryklys.ChatRoom
import Ryklys.Runs

/-!
# Who said what

Over every interleaving of any number of viewers: a row is what an
authenticated viewer said, a published message is a row, none is published
twice, and each viewer's come in the order in which it said them
(`chat_sound`).
-/

namespace Ryklys

open Runs

open ChatRepository (Selects getRecent)

namespace ChatRoom

variable {ι : Type}

/-- The row is a text the viewer said, on its stream and under its name. -/
structure SentBy (jwtSecret : Option Bytes) (v : ChatViewer) (row : ChatRepository.ChatMessage) : Prop where
  authenticated : ∃ now, extractAuthenticatedUserFromRequest jwtSecret now v.request = some v.user
  stream : streamIdOf v.request = some v.streamId
  streamId : row.streamId = cStr v.streamId
  userId : row.userId = v.user.id
  username : row.username = cStr v.user.username
  text : ∃ text ∈ v.said, text ≠ [] ∧ text.length ≤ 500 ∧ row.message = cStr text

def ids (s : ChatRoom ι) : List Int := s.rows.map ChatRepository.ChatMessage.id

def publishedIds (s : ChatRoom ι) : List Int := s.published.map fun p => p.saved.id

def textsOf [DecidableEq ι] (published : List (ChatPublish ι)) (t : ι) : List Bytes :=
  (published.filter fun p => decide (p.viewer = t)).map fun p => p.saved.message

/-- The text on its way through the callback. -/
def pending : ChatPhase → List Bytes
  | .idle => []
  | .inserting text => [cStr text]
  | .publishing saved => [saved.message]

/-! ## What a step does -/

/-- `lossy` allows what only a throwing call does, or a publish that Redis never
has. -/
inductive Moves [DecidableEq ι] (jwtSecret : Option Bytes) (s : ChatRoom ι) : Bool → ChatRoom ι → Prop where
  | stays (lossy : Bool) : Moves jwtSecret s lossy s
  | connects (lossy : Bool) {t : ι} {now : Int} {request : HttpRequest} {user : AuthenticatedUser} {streamId : Bytes}
      (free : s.viewer t = none) (auth : extractAuthenticatedUserFromRequest jwtSecret now request = some user)
      (stream : streamIdOf request = some streamId) :
      Moves jwtSecret s lossy (s.setViewer t { request, streamId, user })
  | speaks (lossy : Bool) {t : ι} {v : ChatViewer} {text : Bytes} (hv : s.viewer t = some v) (idle : v.phase = .idle)
      (fits : text ≠ [] ∧ text.length ≤ 500) :
      Moves jwtSecret s lossy (s.setViewer t { v with phase := .inserting text, said := v.said ++ [text] })
  | inserts (lossy : Bool) {t : ι} {v : ChatViewer} {text : Bytes} {id createdAt : Int} (hv : s.viewer t = some v)
      (inserting : v.phase = .inserting text) (fresh : id ∉ s.ids) :
      Moves jwtSecret s lossy { s.setViewer t { v with phase := .publishing (saved v text id createdAt) } with
        rows := s.rows ++ [saved v text id createdAt] }
  | publishes (lossy : Bool) {t : ι} {v : ChatViewer} {row : ChatRepository.ChatMessage} (hv : s.viewer t = some v)
      (publishing : v.phase = .publishing row) :
      Moves jwtSecret s lossy { s.setViewer t { v with phase := .idle } with
        published := s.published ++ [⟨t, chatChannel v.streamId, row⟩] }
  | insertsLost {t : ι} {v : ChatViewer} {text : Bytes} {id createdAt : Int} (hv : s.viewer t = some v)
      (inserting : v.phase = .inserting text) (fresh : id ∉ s.ids) :
      Moves jwtSecret s true { s.setViewer t { v with phase := .idle } with
        rows := s.rows ++ [saved v text id createdAt] }
  | drops {t : ι} {v : ChatViewer} (hv : s.viewer t = some v) :
      Moves jwtSecret s true (s.setViewer t { v with phase := .idle })

def ChatRoomOp.isLossy : ChatRoomOp ι → Bool
  | .insertThrows _ _ => true
  | .publish _ accepted => !accepted
  | .publishThrows _ _ => true
  | _ => false

theorem readChat_fits {parseJson : Bytes → Option Json} {data : Bytes} {opcode : WsOpcode} {text : Bytes}
    (h : readChat parseJson data opcode = some text) : text ≠ [] ∧ text.length ≤ 500 := by
  unfold readChat at h
  split at h
  · cases h
  obtain ⟨msg, -, h⟩ := Option.bind_eq_some_iff.mp h
  obtain ⟨type, -, h⟩ := Option.bind_eq_some_iff.mp h
  split at h
  · cases h
  obtain ⟨text', -, h⟩ := Option.bind_eq_some_iff.mp h
  split at h
  · cases h
  · rename_i hfits
    cases h
    exact ⟨fun he => hfits (.inl he), Nat.le_of_not_lt fun hl => hfits (.inr hl)⟩

variable [DecidableEq ι] (jwtSecret : Option Bytes) (parseJson : Bytes → Option Json)

/-- **Steps.** -/
theorem step_moves (s : ChatRoom ι) (o : ChatRoomOp ι) :
    Moves jwtSecret s (ChatRoomOp.isLossy o) (s.step jwtSecret parseJson o) := by
  cases o with
  | connect t now request =>
    rw [step, connect]
    split
    · rename_i user streamId hfree hauth hstream
      exact .connects _ hfree hauth hstream
    · exact .stays _
  | message t data opcode =>
    rw [step, ofViewer]
    split
    · rename_i v hv
      rw [message]
      split
      · rename_i text hidle hread
        exact .speaks _ hv hidle (readChat_fits hread)
      · exact .stays _
    · exact .stays _
  | insert t id createdAt =>
    rw [step, ofViewer]
    split
    · rename_i v hv
      rw [insert]
      split
      · rename_i text hins
        split
        · exact .stays _
        · rename_i hfresh
          exact .inserts _ hv hins hfresh
      · exact .stays _
    · exact .stays _
  | insertThrows t committed =>
    rw [step, ofViewer]
    split
    · rename_i v hv
      cases committed with
      | some p =>
        rw [insertThrows, insert]
        split
        · rename_i text hins
          split
          · exact .stays _
          · rename_i hfresh
            exact .insertsLost hv hins hfresh
        · exact .stays _
      | none =>
        rw [insertThrows]
        split
        · exact .drops hv
        · exact .stays _
    · exact .stays _
  | publish t accepted =>
    rw [step, ofViewer]
    split
    · rename_i v hv
      rw [publish]
      split
      · rename_i row hpub
        cases accepted with
        | true => exact .publishes _ hv hpub
        | false => exact .drops hv
      · exact .stays _
    · exact .stays _
  | publishThrows t accepted =>
    rw [step, ofViewer]
    split
    · rename_i v hv
      rw [publish]
      split
      · rename_i row hpub
        cases accepted with
        | true => exact .publishes _ hv hpub
        | false => exact .drops hv
      · exact .stays _
    · exact .stays _

/-! ## The invariant -/

structure ViewerInv (s : ChatRoom ι) (t : ι) (v : ChatViewer) : Prop where
  authenticated : ∃ now, extractAuthenticatedUserFromRequest jwtSecret now v.request = some v.user
  stream : streamIdOf v.request = some v.streamId
  said : ∀ text ∈ v.said, text ≠ [] ∧ text.length ≤ 500
  inserting : ∀ text, v.phase = .inserting text → text ∈ v.said
  publishing : ∀ row, v.phase = .publishing row → row ∈ s.rows ∧ SentBy jwtSecret v row ∧ row.id ∉ s.publishedIds
  order : (textsOf s.published t ++ pending v.phase).Sublist (v.said.map cStr)

structure Inv (s : ChatRoom ι) : Prop where
  ids : s.ids.Nodup
  viewers : ∀ t v, s.viewer t = some v → ViewerInv jwtSecret s t v
  rows : ∀ row ∈ s.rows, ∃ t v, s.viewer t = some v ∧ SentBy jwtSecret v row
  published : ∀ p ∈ s.published, p.saved ∈ s.rows ∧
    ∃ v, s.viewer p.viewer = some v ∧ p.channel = chatChannel v.streamId ∧ SentBy jwtSecret v p.saved
  once : s.publishedIds.Nodup
  apart : ∀ t t' v v' row row', s.viewer t = some v → s.viewer t' = some v' → v.phase = .publishing row →
    v'.phase = .publishing row' → row.id = row'.id → t = t'

/-- The viewer later on. -/
structure Grows (v v' : ChatViewer) : Prop where
  request : v'.request = v.request
  streamId : v'.streamId = v.streamId
  user : v'.user = v.user
  said : ∀ text ∈ v.said, text ∈ v'.said

variable {jwtSecret}

theorem SentBy.grows {v v' : ChatViewer} {row : ChatRepository.ChatMessage} (h : SentBy jwtSecret v row)
    (hg : Grows v v') : SentBy jwtSecret v' row := by
  obtain ⟨text, hmem, hfits⟩ := h.text
  refine ⟨?_, ?_, ?_, ?_, ?_, text, hg.said text hmem, hfits⟩
  · rw [hg.request, hg.user]
    exact h.authenticated
  · rw [hg.request, hg.streamId]
    exact h.stream
  · rw [hg.streamId]
    exact h.streamId
  · rw [hg.user]
    exact h.userId
  · rw [hg.user]
    exact h.username

theorem sentBy_saved {s : ChatRoom ι} {t : ι} {v v' : ChatViewer} {text : Bytes} (h : ViewerInv jwtSecret s t v)
    (hins : v.phase = .inserting text) (hg : Grows v v') (id createdAt : Int) :
    SentBy jwtSecret v' (saved v text id createdAt) := by
  have hmem := h.inserting text hins
  refine SentBy.grows ⟨h.authenticated, h.stream, rfl, rfl, rfl, text, hmem, ?_⟩ hg
  exact ⟨(h.said text hmem).1, (h.said text hmem).2, rfl⟩

section
variable {s : ChatRoom ι} (h : Inv jwtSecret s) {t : ι} {v' : ChatViewer}
include h

/-- One viewer goes on, with rows and messages that are its own. -/
theorem Inv.put {rows : List ChatRepository.ChatMessage} {published : List (ChatPublish ι)}
    (hold : ∀ v, s.viewer t = some v → Grows v v')
    (hinv : ViewerInv jwtSecret { s.setViewer t v' with rows, published } t v')
    (hkeep : ∀ row ∈ s.rows, row ∈ rows) (hids : (rows.map ChatRepository.ChatMessage.id).Nodup)
    (hrows : ∀ row ∈ rows, row ∈ s.rows ∨ SentBy jwtSecret v' row)
    (hpub : ∀ p ∈ published, p ∈ s.published ∨
      p.viewer = t ∧ p.saved ∈ rows ∧ p.channel = chatChannel v'.streamId ∧ SentBy jwtSecret v' p.saved)
    (honce : (published.map fun p => p.saved.id).Nodup)
    (hothers : ∀ t', t' ≠ t → textsOf published t' = textsOf s.published t')
    (hfree : ∀ t' v row, t' ≠ t → s.viewer t' = some v → v.phase = .publishing row →
      row.id ∉ published.map fun p => p.saved.id)
    (hapart : ∀ t' v row row', t' ≠ t → s.viewer t' = some v → v.phase = .publishing row →
      v'.phase = .publishing row' → row.id ≠ row'.id) :
    Inv jwtSecret { s.setViewer t v' with rows, published } := by
  have hviewer : ∀ t', ({ s.setViewer t v' with rows, published } : ChatRoom ι).viewer t' =
      if t' = t then some v' else s.viewer t' := fun t' => Function.update_apply ..
  -- whoever sent something is still there
  have hstill : ∀ t' v, s.viewer t' = some v → ∃ v₂,
      ({ s.setViewer t v' with rows, published } : ChatRoom ι).viewer t' = some v₂ ∧ Grows v v₂ := by
    intro t' v hv
    rw [hviewer]
    by_cases ht : t' = t
    · rw [if_pos ht]
      exact ⟨v', rfl, hold v (ht ▸ hv)⟩
    · rw [if_neg ht]
      exact ⟨v, hv, rfl, rfl, rfl, fun _ hm => hm⟩
  have hself : ({ s.setViewer t v' with rows, published } : ChatRoom ι).viewer t = some v' := by
    rw [hviewer, if_pos rfl]
  refine ⟨hids, ?_, ?_, ?_, honce, ?_⟩
  · intro t' v hv
    rw [hviewer] at hv
    by_cases ht : t' = t
    · rw [if_pos ht] at hv
      cases hv
      exact ht ▸ hinv
    · rw [if_neg ht] at hv
      have hi := h.viewers t' v hv
      refine ⟨hi.authenticated, hi.stream, hi.said, hi.inserting, ?_, ?_⟩
      · intro row hrow
        obtain ⟨hmem, hsent, -⟩ := hi.publishing row hrow
        exact ⟨hkeep row hmem, hsent, hfree t' v row ht hv hrow⟩
      · have hord := hi.order
        rw [← hothers t' ht] at hord
        exact hord
  · intro row hrow
    rcases hrows row hrow with hrow | hsent
    · obtain ⟨t', v, hv, hsent⟩ := h.rows row hrow
      obtain ⟨v₂, hv₂, hg⟩ := hstill t' v hv
      exact ⟨t', v₂, hv₂, hsent.grows hg⟩
    · exact ⟨t, v', hself, hsent⟩
  · intro p hp
    rcases hpub p hp with hp | ⟨ht, hmem, hch, hsent⟩
    · obtain ⟨hmem, v, hv, hch, hsent⟩ := h.published p hp
      obtain ⟨v₂, hv₂, hg⟩ := hstill p.viewer v hv
      exact ⟨hkeep _ hmem, v₂, hv₂, by rw [hg.streamId]; exact hch, hsent.grows hg⟩
    · rw [ht]
      exact ⟨hmem, v', hself, hch, hsent⟩
  · intro t₁ t₂ v₁ v₂ row₁ row₂ hv₁ hv₂ hp₁ hp₂ heq
    rw [hviewer] at hv₁ hv₂
    by_cases h₁ : t₁ = t <;> by_cases h₂ : t₂ = t
    · rw [h₁, h₂]
    · rw [if_pos h₁] at hv₁
      rw [if_neg h₂] at hv₂
      cases hv₁
      exact absurd heq.symm (hapart t₂ v₂ row₂ row₁ h₂ hv₂ hp₂ hp₁)
    · rw [if_neg h₁] at hv₁
      rw [if_pos h₂] at hv₂
      cases hv₂
      exact absurd heq (hapart t₁ v₁ row₁ row₂ h₁ hv₁ hp₁ hp₂)
    · rw [if_neg h₁] at hv₁
      rw [if_neg h₂] at hv₂
      exact h.apart t₁ t₂ v₁ v₂ row₁ row₂ hv₁ hv₂ hp₁ hp₂ heq

/-- The same without new rows and messages, and with nothing to publish. -/
theorem Inv.go (hold : ∀ v, s.viewer t = some v → Grows v v') (hinv : ViewerInv jwtSecret (s.setViewer t v') t v')
    (hphase : ∀ row, v'.phase ≠ .publishing row) : Inv jwtSecret (s.setViewer t v') := by
  refine h.put hold hinv (fun _ hr => hr) h.ids (fun _ hr => .inl hr) (fun _ hp => .inl hp) h.once (fun _ _ => rfl)
    ?_ ?_
  · intro t' v row _ hv hrow
    exact ((h.viewers t' v hv).publishing row hrow).2.2
  · intro t' v row row' _ _ _ hrow'
    exact absurd hrow' (hphase row')

end

theorem grows_phase (v : ChatViewer) (phase : ChatPhase) : Grows v { v with phase } :=
  ⟨rfl, rfl, rfl, fun _ hm => hm⟩

omit [DecidableEq ι] in
theorem grows_of {s : ChatRoom ι} {t : ι} {v v' : ChatViewer} (hv : s.viewer t = some v) (hg : Grows v v') :
    ∀ v₁, s.viewer t = some v₁ → Grows v₁ v' := by
  intro v₁ hv₁
  rw [hv] at hv₁
  cases hv₁
  exact hg

theorem textsOf_append (published : List (ChatPublish ι)) (p : ChatPublish ι) (t : ι) :
    textsOf (published ++ [p]) t = textsOf published t ++ if p.viewer = t then [p.saved.message] else [] := by
  unfold textsOf
  rw [List.filter_append, List.map_append, List.filter_singleton]
  by_cases h : p.viewer = t
  · rw [if_pos h, decide_eq_true h]
    rfl
  · rw [if_neg h, decide_eq_false h]
    rfl

/-! ## Every step -/

section
variable {s : ChatRoom ι} (h : Inv jwtSecret s) {t : ι}
include h

theorem Inv.published_mem {id : Int} (hid : id ∈ s.publishedIds) : id ∈ s.ids := by
  obtain ⟨p, hp, rfl⟩ := List.mem_map.mp hid
  exact List.mem_map_of_mem (h.published p hp).1

/-- A connection that is not there has published nothing. -/
theorem Inv.texts_free (hfree : s.viewer t = none) : textsOf s.published t = [] := by
  rw [textsOf, List.map_eq_nil_iff, List.filter_eq_nil_iff]
  intro p hp hpt
  obtain ⟨-, v, hv, -⟩ := h.published p hp
  rw [of_decide_eq_true hpt, hfree] at hv
  cases hv

theorem Inv.connects {now : Int} {request : HttpRequest} {user : AuthenticatedUser} {streamId : Bytes}
    (hfree : s.viewer t = none) (hauth : extractAuthenticatedUserFromRequest jwtSecret now request = some user)
    (hstream : streamIdOf request = some streamId) :
    Inv jwtSecret (s.setViewer t { request, streamId, user }) := by
  refine h.go ?_ ⟨⟨now, hauth⟩, hstream, ?_, ?_, ?_, ?_⟩ ?_
  · intro v hv
    rw [hfree] at hv
    cases hv
  · intro text ht
    cases ht
  · intro text ht
    cases ht
  · intro row hr
    cases hr
  · have htexts := h.texts_free hfree
    rw [show (s.setViewer t { request, streamId, user }).published = s.published from rfl, htexts]
    exact List.Sublist.refl _
  · intro row hr
    cases hr

variable {v : ChatViewer} (hv : s.viewer t = some v)
include hv

theorem Inv.speaks {text : Bytes} (hidle : v.phase = .idle) (hfits : text ≠ [] ∧ text.length ≤ 500) :
    Inv jwtSecret (s.setViewer t { v with phase := .inserting text, said := v.said ++ [text] }) := by
  have hi := h.viewers t v hv
  refine h.go (grows_of hv ⟨rfl, rfl, rfl, fun _ hm => List.mem_append_left _ hm⟩)
    ⟨hi.authenticated, hi.stream, ?_, ?_, ?_, ?_⟩ ?_
  · intro text' ht
    rcases List.mem_append.mp ht with ht | ht
    · exact hi.said text' ht
    · rw [List.mem_singleton.mp ht]
      exact hfits
  · intro text' ht
    cases ht
    exact List.mem_append_right _ (List.mem_singleton_self text)
  · intro row hr
    cases hr
  · have hord := hi.order
    rw [hidle, pending, List.append_nil] at hord
    rw [List.map_append]
    exact hord.append (List.Sublist.refl _)
  · intro row hr
    cases hr

/-- The callback ends without a publish. -/
theorem Inv.drops : Inv jwtSecret (s.setViewer t { v with phase := .idle }) := by
  have hi := h.viewers t v hv
  refine h.go (grows_of hv (grows_phase v _)) ⟨hi.authenticated, hi.stream, hi.said, ?_, ?_, ?_⟩ ?_
  · intro text ht
    cases ht
  · intro row hr
    cases hr
  · rw [pending, List.append_nil]
    exact (List.sublist_append_left _ _).trans hi.order
  · intro row hr
    cases hr

theorem Inv.inserts {text : Bytes} {id createdAt : Int} (hins : v.phase = .inserting text) (hfresh : id ∉ s.ids)
    {phase : ChatPhase} (hphase : phase = .publishing (saved v text id createdAt) ∨ phase = .idle) :
    Inv jwtSecret { s.setViewer t { v with phase } with rows := s.rows ++ [saved v text id createdAt] } := by
  have hi := h.viewers t v hv
  have hsent := sentBy_saved hi hins (grows_phase v phase) id createdAt
  have hmem : saved v text id createdAt ∈ s.rows ++ [saved v text id createdAt] :=
    List.mem_append_right _ (List.mem_singleton_self _)
  have hrow : ∀ row, phase = .publishing row → row = saved v text id createdAt := by
    intro row hr
    rcases hphase with hp | hp
    · rw [hp] at hr
      cases hr
      rfl
    · rw [hp] at hr
      cases hr
  refine h.put (grows_of hv (grows_phase v _)) ⟨hi.authenticated, hi.stream, hi.said, ?_, ?_, ?_⟩
    (fun _ hr => List.mem_append_left _ hr) ?_ ?_ (fun _ hp => .inl hp) h.once (fun _ _ => rfl) ?_ ?_
  · intro text' ht
    rcases hphase with hp | hp
    · cases hp.symm.trans ht
    · cases hp.symm.trans ht
  · intro row hr
    rw [hrow row hr]
    exact ⟨hmem, hsent, fun hid => hfresh (h.published_mem hid)⟩
  · have hord := hi.order
    rw [hins] at hord
    rcases hphase with hp | hp
    · rw [hp]
      exact hord
    · rw [hp, pending, List.append_nil]
      exact (List.sublist_append_left _ _).trans hord
  · rw [List.map_append, List.map_singleton, List.nodup_append]
    refine ⟨h.ids, List.nodup_singleton _, fun a ha b hb hab => hfresh ?_⟩
    rw [hab, List.mem_singleton.mp hb] at ha
    exact ha
  · intro row hr
    rcases List.mem_append.mp hr with hr | hr
    · exact .inl hr
    · rw [List.mem_singleton.mp hr]
      exact .inr hsent
  · intro t' v₂ row _ hv₂ hr
    exact ((h.viewers t' v₂ hv₂).publishing row hr).2.2
  · intro t' v₂ row row' _ hv₂ hr hr' heq
    rw [hrow row' hr'] at heq
    refine hfresh (?_ : id ∈ s.rows.map ChatRepository.ChatMessage.id)
    rw [show id = row.id from heq.symm]
    exact List.mem_map_of_mem ((h.viewers t' v₂ hv₂).publishing row hr).1

theorem Inv.publishes {row : ChatRepository.ChatMessage} (hpub : v.phase = .publishing row) :
    Inv jwtSecret { s.setViewer t { v with phase := .idle } with
      published := s.published ++ [⟨t, chatChannel v.streamId, row⟩] } := by
  have hi := h.viewers t v hv
  obtain ⟨hmem, hsent, hfresh⟩ := hi.publishing row hpub
  have hids : ((s.published ++ [⟨t, chatChannel v.streamId, row⟩] : List (ChatPublish ι)).map fun p => p.saved.id) =
      s.publishedIds ++ [row.id] := List.map_append
  refine h.put (grows_of hv (grows_phase v _)) ⟨hi.authenticated, hi.stream, hi.said, ?_, ?_, ?_⟩
    (fun _ hr => hr) h.ids (fun _ hr => .inl hr) ?_ ?_ ?_ ?_ ?_
  · intro text ht
    cases ht
  · intro row' hr
    cases hr
  · have hord := hi.order
    rw [hpub] at hord
    dsimp only
    rw [textsOf_append, if_pos rfl, pending, List.append_nil]
    exact hord
  · intro p hp
    rcases List.mem_append.mp hp with hp | hp
    · exact .inl hp
    · rw [List.mem_singleton.mp hp]
      exact .inr ⟨rfl, hmem, rfl, hsent.grows (grows_phase v _)⟩
  · rw [hids, List.nodup_append]
    refine ⟨h.once, List.nodup_singleton _, fun a ha b hb hab => hfresh ?_⟩
    rw [hab, List.mem_singleton.mp hb] at ha
    exact ha
  · intro t' ht
    rw [textsOf_append, if_neg (fun he => ht he.symm), List.append_nil]
  · intro t' v₂ row' ht hv₂ hr hid
    rw [hids] at hid
    rcases List.mem_append.mp hid with hid | hid
    · exact ((h.viewers t' v₂ hv₂).publishing row' hr).2.2 hid
    · exact ht (h.apart t' t v₂ v row' row hv₂ hv hr hpub (List.mem_singleton.mp hid))
  · intro t' v₂ row' row'' _ _ _ hr
    cases hr

end

/-- **Steps keep the invariant.** -/
theorem Inv.moves {s s' : ChatRoom ι} {lossy : Bool} (h : Inv jwtSecret s) (hm : Moves jwtSecret s lossy s') :
    Inv jwtSecret s' := by
  cases hm with
  | stays => exact h
  | connects _ free auth stream => exact h.connects free auth stream
  | speaks _ hv idle fits => exact h.speaks hv idle fits
  | inserts _ hv inserting fresh => exact h.inserts hv inserting fresh (.inl rfl)
  | publishes _ hv publishing => exact h.publishes hv publishing
  | insertsLost hv inserting fresh => exact h.inserts hv inserting fresh (.inr rfl)
  | drops hv => exact h.drops hv

/-! ## Every run -/

theorem inv_start : Inv jwtSecret ({} : ChatRoom ι) := by
  refine ⟨List.nodup_nil, ?_, ?_, ?_, List.nodup_nil, ?_⟩
  · intro t v hv
    cases hv
  · intro row hr
    cases hr
  · intro p hp
    cases hp
  · intro t t' v v' row row' hv
    cases hv

variable (jwtSecret)

def after (ops : List (ChatRoomOp ι)) : ChatRoom ι := run (step jwtSecret parseJson) {} ops

theorem inv_after (ops : List (ChatRoomOp ι)) : Inv jwtSecret (after jwtSecret parseJson ops) :=
  invariant (step jwtSecret parseJson) (fun s o h => h.moves (step_moves jwtSecret parseJson s o)) ops inv_start

end ChatRoom

end Ryklys

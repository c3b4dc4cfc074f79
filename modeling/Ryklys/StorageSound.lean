import Ryklys.StreamPocket

/-!
# Soundness of the segment store

Which handler of StreamPocket a request gets to does not depend on the files
(`called_eq`), and a request touches no file but the one of the pair that it
is accepted for (`serve_frame`). The pairs are told apart by their paths
exactly as long as no component is a single dot (`confined_iff`), which the
safety check lets pass. A PUT is atomic exactly when the disk takes the whole
body (`putAtomic_iff`), since the handler does not look at the stream again.
-/

namespace Ryklys

open Search

abbrev Ordinary : Bytes → Prop := Paths.Ordinary 47 46

/-! ## The safety check -/

theorem isSafe_iff {s : Bytes} :
    isSafe s = true ↔ s ≠ [] ∧ ¬ bytes ".." <:+: s ∧ 47 ∉ s ∧ 92 ∉ s ∧ 37 ∉ s ∧ 0 ∉ s := by
  rw [← find_eq_none]
  simp [isSafe, and_assoc]

theorem ordinary_of_isSafe {s : Bytes} (h : isSafe s = true) (hdot : s ≠ bytes ".") : Ordinary s := by
  obtain ⟨hne, hdd, hsep, -⟩ := isSafe_iff.mp h
  refine ⟨hne, hdot, ?_, hsep⟩
  intro he
  exact hdd (he ▸ List.infix_refl _)

namespace StreamPocket

variable (P : StreamPocket)

/-- What every handler has checked of a pair that it accepts. -/
structure Checked (req : HttpRequest) (s f : Bytes) : Prop where
  streamId : req.pathParams.lookup (bytes "streamId") = some s
  filename : req.pathParams.lookup (bytes "filename") = some f
  safe : isSafe s = true ∧ isSafe f = true

theorem checkGet_checked {req : HttpRequest} {s f : Bytes} (h : checkGet req = .accepted s f) : Checked req s f := by
  unfold checkGet at h
  repeat' split at h
  all_goals cases h
  rename_i hs hf hsafe _
  exact ⟨hs, hf, by simp_all⟩

theorem checkPut_checked {req : HttpRequest} {s f : Bytes} (h : P.checkPut req = .accepted s f) :
    Checked req s f := by
  unfold checkPut at h
  repeat' split at h
  all_goals cases h
  rename_i hs hf hsafe _
  exact ⟨hs, hf, by simp_all⟩

theorem checkDelete_checked {req : HttpRequest} {s f : Bytes} (h : P.checkDelete req = .accepted s f) :
    Checked req s f := by
  unfold checkDelete at h
  repeat' split at h
  all_goals cases h
  rename_i hs hf hsafe
  exact ⟨hs, hf, by simpa using hsafe⟩

def check (id : Nat) (req : HttpRequest) : SegmentCheck :=
  match id with
  | 1 => checkGet req
  | 2 => P.checkPut req
  | 3 => P.checkDelete req
  | _ => .rejected (.error .other)

theorem check_checked {id : Nat} {req : HttpRequest} {s f : Bytes} (h : P.check id req = .accepted s f) :
    Checked req s f := by
  unfold check at h
  split at h
  · exact checkGet_checked h
  · exact P.checkPut_checked h
  · exact P.checkDelete_checked h
  · cases h

/-! ## Dispatch -/

def segmentHandler : HttpMethod → Option Nat
  | .GET => some 1
  | .PUT => some 2
  | .DELETE => some 3
  | _ => none

def routed (request : HttpRequest) : Option (Nat × HttpRequest) :=
  if isWsUpgrade request || isCorsPreflight request then none
  else if request.path = bytes "/api/health" then some (0, request)
  else if (ZvejysServer.matchPattern segmentPattern request.path ∅).1 = true then
    (segmentHandler request.method).map fun id =>
      (id, { request with pathParams := (ZvejysServer.matchPattern segmentPattern request.path ∅).2 })
  else none

theorem routed_cases {request req : HttpRequest} {id : Nat} (h : routed request = some (id, req)) :
    (id = 0 ∧ req = request) ∨ (segmentHandler request.method = some id ∧
      req = { request with pathParams := (ZvejysServer.matchPattern segmentPattern request.path ∅).2 }) := by
  unfold routed at h
  split at h
  · cases h
  split at h
  · cases h
    exact Or.inl ⟨rfl, rfl⟩
  split at h
  · obtain ⟨id', hid, he⟩ := Option.map_eq_some_iff.mp h
    cases he
    exact Or.inr ⟨hid, rfl⟩
  · cases h

theorem routed_body {request req : HttpRequest} {id : Nat} (h : routed request = some (id, req)) :
    req.body = request.body := by
  rcases routed_cases h with ⟨-, rfl⟩ | ⟨-, rfl⟩ <;> rfl

def handle (files : Files) (o : FileOutcome) (id : Nat) (req : HttpRequest) : Except Exn HttpResponse :=
  match id with
  | 0 => .ok (.ok (bytes "I`m alive"))
  | 1 => (P.getSegment files o req).2
  | 2 => (P.putSegment files o req).2
  | _ => (P.deleteSegment files o req).2

def node (files : Files) (o : FileOutcome) (id : Nat) : PathTreeNode where
  id := id
  routeMethod := match id with
    | 0 | 1 => .GET
    | 2 => .PUT
    | _ => .DELETE
  handler := .route (some (P.handle files o id))

theorem called_eq (files : Files) (o : FileOutcome) (request : HttpRequest) :
    (P.server files o).called request = (routed request).map fun x => (P.node files o x.1, x.2) := by
  unfold ZvejysServer.called routed
  split
  · rfl
  · by_cases hh : request.path = bytes "/api/health"
    · rw [if_pos hh, hh]
      rfl
    · rw [if_neg hh]
      have hl : (P.server files o).routeMap.lookup request.path = none := by
        show AList.lookup request.path (AList.insert _ _ _) = none
        rw [AList.lookup_insert_ne hh]
        rfl
      rw [hl]
      show ZvejysServer.patternNode request [(segmentPattern, _), (segmentPattern, _), (segmentPattern, _)] = _
      simp only [ZvejysServer.patternNode]
      cases (ZvejysServer.matchPattern segmentPattern request.path ∅).1
      · rfl
      · cases request.method <;> rfl

theorem serve_of_routed (files : Files) (o : FileOutcome) {request req : HttpRequest} {id : Nat}
    (h : routed request = some (id, req)) :
    P.serve files o request = (P.effect files o id req, .queued (some id)
      ((P.server files o).cors.applyCorsHeaders request (match P.handle files o id req with
        | .ok response => response
        | .error _ => .internalServerError (bytes "Internal server error"))).2) := by
  have hc : (P.server files o).called request = some (P.node files o id, req) := by
    rw [called_eq, h]
    rfl
  rw [serve, (P.server files o).handleRead_of_called hc]
  simp only [hc]
  rfl

theorem serve_of_not_routed (files : Files) (o : FileOutcome) {request : HttpRequest} (h : routed request = none) :
    (P.serve files o request).1 = files := by
  have hc : (P.server files o).called request = none := by
    rw [called_eq, h]
    rfl
  simp only [serve, hc]

def Accepts (request : HttpRequest) (s f : Bytes) : Prop :=
  ∃ files o node req, (P.server files o).called request = some (node, req) ∧ P.check node.id req = .accepted s f

theorem accepts_iff {request : HttpRequest} {s f : Bytes} :
    P.Accepts request s f ↔ ∃ id req, routed request = some (id, req) ∧ P.check id req = .accepted s f := by
  unfold Accepts
  simp only [called_eq]
  constructor
  · intro ⟨files, o, node, req, hc, hk⟩
    obtain ⟨⟨id, req'⟩, hr, he⟩ := Option.map_eq_some_iff.mp hc
    cases he
    exact ⟨id, req', hr, hk⟩
  · intro ⟨id, req, hr, hk⟩
    refine ⟨fun _ => none, ⟨true, true, true, true, false, 0⟩,
      P.node (fun _ => none) ⟨true, true, true, true, false, 0⟩ id, req, ?_, hk⟩
    rw [hr]
    rfl

theorem accepts_checked {request : HttpRequest} {s f : Bytes} (h : P.Accepts request s f) :
    Checked { request with pathParams := (ZvejysServer.matchPattern segmentPattern request.path ∅).2 } s f := by
  obtain ⟨id, req, hr, hk⟩ := P.accepts_iff.mp h
  rcases routed_cases hr with ⟨rfl, -⟩ | ⟨-, rfl⟩
  · cases hk
  · exact P.check_checked hk

theorem accepts_unique {request : HttpRequest} {s f s' f' : Bytes} (h : P.Accepts request s f)
    (h' : P.Accepts request s' f') : (s, f) = (s', f') := by
  have hs := (P.accepts_checked h).streamId.symm.trans (P.accepts_checked h').streamId
  have hf := (P.accepts_checked h).filename.symm.trans (P.accepts_checked h').filename
  exact Prod.ext (Option.some.inj hs) (Option.some.inj hf)

/-! ## What a request touches -/

theorem effect_frame (files : Files) (o : FileOutcome) {id : Nat} {req : HttpRequest} {p : List Bytes}
    (h : ∀ s f, P.check id req = .accepted s f → normalPath (P.path s f) ≠ p) :
    P.effect files o id req p = files p := by
  unfold effect
  split
  · unfold getSegment
    split <;> rfl
  · unfold putSegment
    cases hc : P.checkPut req with
    | rejected answer => rfl
    | accepted s f =>
      simp only
      split
      · rfl
      split
      · rfl
      · exact Function.update_of_ne (Ne.symm (h s f hc)) _ _
  · unfold deleteSegment
    cases hc : P.checkDelete req with
    | rejected answer => rfl
    | accepted s f =>
      simp only
      split
      · split
        · exact Function.update_of_ne (Ne.symm (h s f hc)) _ _
        · rfl
      · split
        · rfl
        · split <;> rfl
  · rfl

/-- **Frame.** A request leaves every file alone but that of the pair it is accepted for. -/
theorem serve_frame (files : Files) (o : FileOutcome) {request : HttpRequest} {p : List Bytes}
    (h : ∀ s f, P.Accepts request s f → normalPath (P.path s f) ≠ p) : (P.serve files o request).1 p = files p := by
  cases hr : routed request with
  | none => rw [P.serve_of_not_routed files o hr]
  | some x =>
    obtain ⟨id, req⟩ := x
    rw [P.serve_of_routed files o hr]
    exact P.effect_frame files o fun s f hk => h s f (P.accepts_iff.mpr ⟨id, req, hr, hk⟩)

/-! ## Confinement -/

theorem normalPath_path {s f : Bytes} (hs : 47 ∉ s) (hf : 47 ∉ f) :
    normalPath (P.path s f) = Paths.push 46 (Paths.push 46 (normalPath P.baseDir) s) f := by
  show Paths.normal 47 46 _ = _
  rw [path, Paths.normal_child _ hf, Paths.normal_child _ hs]

theorem normalPath_ordinary {s f : Bytes} (hs : Ordinary s) (hf : Ordinary f) :
    normalPath (P.path s f) = normalPath P.baseDir ++ [s, f] := by
  show Paths.normal 47 46 _ = _
  rw [path, Paths.normal_ordinary _ hf, Paths.normal_ordinary _ hs, List.append_assoc]
  rfl

def Confined (s f : Bytes) : Prop :=
  ∃ a b, Ordinary a ∧ Ordinary b ∧ normalPath (P.path s f) = normalPath P.baseDir ++ [a, b]

theorem confined_iff_no_dot {s f : Bytes} (hs : isSafe s = true) (hf : isSafe f = true) :
    P.Confined s f ↔ s ≠ bytes "." ∧ f ≠ bytes "." := by
  constructor
  · intro ⟨a, b, _, _, he⟩
    rw [P.normalPath_path (isSafe_iff.mp hs).2.2.1 (isSafe_iff.mp hf).2.2.1] at he
    have hlen := congrArg List.length he
    -- a dot adds no name, another component at most one
    constructor
    · intro hd
      subst hd
      have := Paths.push_length_le (46 : UInt8) (normalPath P.baseDir) f
      rw [show bytes "." = [46] from rfl, Paths.push_dot] at hlen
      simp at hlen this
      omega
    · intro hd
      subst hd
      have := Paths.push_length_le (46 : UInt8) (normalPath P.baseDir) s
      rw [show bytes "." = [46] from rfl, Paths.push_dot] at hlen
      simp at hlen this
      omega
  · intro ⟨hds, hdf⟩
    have hos := ordinary_of_isSafe hs hds
    have hof := ordinary_of_isSafe hf hdf
    exact ⟨s, f, hos, hof, P.normalPath_ordinary hos hof⟩

theorem apart_of_ordinary {s f s' f' : Bytes} (hs : Ordinary s) (hf : Ordinary f) (hs' : Ordinary s')
    (hf' : Ordinary f') (hne : (s, f) ≠ (s', f')) : Paths.Apart 47 46 (P.path s f) (P.path s' f') := by
  have h : Paths.normal 47 46 (P.path s f) = _ := P.normalPath_ordinary hs hf
  have h' : Paths.normal 47 46 (P.path s' f') = _ := P.normalPath_ordinary hs' hf'
  refine Paths.apart_of_length ?_ ?_
  · rw [h, h']
    simp
  · rw [h, h']
    intro he
    have := List.append_cancel_left he
    simp at this
    exact hne (Prod.ext this.1 this.2)

/-- Requests for different pairs stay out of each other's way. -/
structure Separate (r r' : HttpRequest) (s f s' f' : Bytes) : Prop where
  apart : Paths.Apart 47 46 (P.path s f) (P.path s' f')
  untouched : ∀ files o, (P.serve files o r).1 (normalPath (P.path s' f')) = files (normalPath (P.path s' f'))
  untouched' : ∀ files o, (P.serve files o r').1 (normalPath (P.path s f)) = files (normalPath (P.path s f))

/-- **Confinement.** Two accepted requests stay exactly two levels below the
base directory, and out of each other's way, exactly when no component of
theirs is a single dot. -/
theorem confined_iff {r r' : HttpRequest} {s f s' f' : Bytes} (h : P.Accepts r s f) (h' : P.Accepts r' s' f') :
    (P.Confined s f ∧ P.Confined s' f' ∧ ((s, f) ≠ (s', f') → P.Separate r r' s f s' f')) ↔
      (s ≠ bytes "." ∧ f ≠ bytes ".") ∧ (s' ≠ bytes "." ∧ f' ≠ bytes ".") := by
  obtain ⟨hs, hf⟩ := (P.accepts_checked h).safe
  obtain ⟨hs', hf'⟩ := (P.accepts_checked h').safe
  rw [P.confined_iff_no_dot hs hf, P.confined_iff_no_dot hs' hf']
  constructor
  · intro ⟨hd, hd', _⟩
    exact ⟨hd, hd'⟩
  · intro ⟨hd, hd'⟩
    refine ⟨hd, hd', fun hne => ?_⟩
    have hap := P.apart_of_ordinary (ordinary_of_isSafe hs hd.1) (ordinary_of_isSafe hf hd.2)
      (ordinary_of_isSafe hs' hd'.1) (ordinary_of_isSafe hf' hd'.2) hne
    refine ⟨hap, ?_, ?_⟩
    · intro files o
      apply P.serve_frame files o
      intro a b hab he
      cases P.accepts_unique h hab
      exact hap.ne he
    · intro files o
      apply P.serve_frame files o
      intro a b hab he
      cases P.accepts_unique h' hab
      exact hap.symm.ne he

theorem accepts_get {request : HttpRequest} {s f : Bytes}
    (hr : routed request = some (1, { request with pathParams := segmentParams s f }))
    (hk : checkGet { request with pathParams := segmentParams s f } = .accepted s f) : P.Accepts request s f :=
  P.accepts_iff.mpr ⟨1, _, hr, hk⟩

def pocket : StreamPocket := ⟨bytes "/srv/storage", bytes "123", {}⟩

def getTarget (target : Bytes) : HttpRequest := { method := .GET, path := (splitTarget target).1 }

theorem xStream_accepted :
    pocket.Accepts (getTarget (bytes "/api/segments/x.ts/y.ts")) (bytes "x.ts") (bytes "y.ts") :=
  pocket.accepts_get rfl rfl

theorem zStream_accepted :
    pocket.Accepts (getTarget (bytes "/api/segments/z/y.ts?t=1")) (bytes "z") (bytes "y.ts") :=
  pocket.accepts_get rfl rfl

theorem dotStream_accepted :
    pocket.Accepts (getTarget (bytes "/api/segments/./x.ts")) (bytes ".") (bytes "x.ts") :=
  pocket.accepts_get rfl rfl

theorem xStream_zStream_confined :
    pocket.Confined (bytes "x.ts") (bytes "y.ts") ∧ pocket.Confined (bytes "z") (bytes "y.ts") ∧
      ((bytes "x.ts", bytes "y.ts") ≠ (bytes "z", bytes "y.ts") →
        pocket.Separate (getTarget (bytes "/api/segments/x.ts/y.ts")) (getTarget (bytes "/api/segments/z/y.ts?t=1"))
          (bytes "x.ts") (bytes "y.ts") (bytes "z") (bytes "y.ts")) :=
  (pocket.confined_iff xStream_accepted zStream_accepted).mpr (by decide)

/-- With a dot as the stream the file `x.ts` lies in the base directory, where
it is the directory of a stream `x.ts`. -/
theorem dotStream_not_confined :
    pocket.Accepts (getTarget (bytes "/api/segments/./x.ts")) (bytes ".") (bytes "x.ts") ∧
    pocket.Accepts (getTarget (bytes "/api/segments/x.ts/y.ts")) (bytes "x.ts") (bytes "y.ts") ∧
    ¬ pocket.Confined (bytes ".") (bytes "x.ts") ∧
    ¬ Paths.Apart 47 46 (pocket.path (bytes ".") (bytes "x.ts")) (pocket.path (bytes "x.ts") (bytes "y.ts")) := by
  refine ⟨dotStream_accepted, xStream_accepted, ?_, by decide⟩
  intro h
  have := (pocket.confined_iff_no_dot (by decide) (by decide)).mp h
  exact this.1 rfl

/-! ## PUT -/

def Writes (o : FileOutcome) (request : HttpRequest) (s f : Bytes) : Prop :=
  (∃ req, routed request = some (2, req) ∧ P.checkPut req = .accepted s f) ∧ o.creates = true ∧ o.opens = true

/-- An answer of the PUT handler says whether the file now holds the body, or
else nothing has changed. -/
def PutAtomic (files : Files) (o : FileOutcome) (request : HttpRequest) : Prop :=
  ∀ req response, routed request = some (2, req) → (P.serve files o request).2 = .queued (some 2) response →
    (response.statusCode = 200 → ∃ s f, req.pathParams.lookup (bytes "streamId") = some s ∧
      req.pathParams.lookup (bytes "filename") = some f ∧
      (P.serve files o request).1 (normalPath (P.path s f)) = some request.body) ∧
    (response.statusCode ≠ 200 → (P.serve files o request).1 = files)

theorem checkPut_rejected {req : HttpRequest} {answer : Except Exn HttpResponse}
    (h : P.checkPut req = .rejected answer) : ∀ r, answer = .ok r → r.statusCode ≠ 200 := by
  unfold checkPut at h
  repeat' split at h
  all_goals cases h
  all_goals
    intro r hr
    cases hr
    try decide

theorem putSegment_cases (files : Files) (o : FileOutcome) (req : HttpRequest) :
    (∃ s f, P.checkPut req = .accepted s f ∧ o.creates = true ∧ o.opens = true ∧ P.putSegment files o req =
      (Function.update files (normalPath (P.path s f)) (some (req.body.take o.room)), .ok (.ok (bytes "Stored")))) ∨
    ∃ answer, P.putSegment files o req = (files, answer) ∧ ∀ r, answer = .ok r → r.statusCode ≠ 200 := by
  unfold putSegment
  cases hk : P.checkPut req with
  | rejected answer => exact Or.inr ⟨answer, rfl, P.checkPut_rejected hk⟩
  | accepted s f =>
    cases hc : o.creates with
    | false => exact Or.inr ⟨_, rfl, fun r hr => by cases hr⟩
    | true =>
      cases ho : o.opens with
      | false =>
        refine Or.inr ⟨_, rfl, fun r hr => ?_⟩
        cases hr
        decide
      | true => exact Or.inl ⟨s, f, rfl, rfl, rfl, rfl⟩

/-- **PUT.** The answer tells the truth exactly when the disk takes the whole
body of every request that gets to write. -/
theorem putAtomic_iff (files : Files) (o : FileOutcome) (request : HttpRequest) :
    P.PutAtomic files o request ↔ ∀ s f, P.Writes o request s f → request.body.length ≤ o.room := by
  constructor
  · intro h s f ⟨⟨req, hr, hk⟩, hc, ho⟩
    have hs := P.serve_of_routed files o hr
    simp only [handle, effect, putSegment, hk, hc, ho] at hs
    obtain ⟨s', f', hs', hf', hfile⟩ := (h req _ hr (by rw [hs])).1 (by
      rw [Cors.applyCorsHeaders_statusCode]
      rfl)
    obtain ⟨hps, hpf, -⟩ := P.checkPut_checked hk
    rw [hps] at hs'
    rw [hpf] at hf'
    cases hs'
    cases hf'
    rw [hs] at hfile
    simp only [Bool.not_true, Bool.false_eq_true, if_false, Function.update_self, Option.some.injEq,
      List.take_eq_self_iff, routed_body hr] at hfile
    exact hfile
  · intro h req response hr hresp
    rw [P.serve_of_routed files o hr] at hresp ⊢
    simp only [Answer.queued.injEq, true_and] at hresp
    subst hresp
    simp only [handle, effect, Cors.applyCorsHeaders_statusCode]
    rcases P.putSegment_cases files o req with ⟨s, f, hk, hc, ho, he⟩ | ⟨answer, he, hans⟩
    · have hroom := h s f ⟨⟨req, hr, hk⟩, hc, ho⟩
      obtain ⟨hps, hpf, -⟩ := P.checkPut_checked hk
      rw [he, routed_body hr, List.take_of_length_le hroom]
      exact ⟨fun _ => ⟨s, f, hps, hpf, Function.update_self _ _ _⟩, fun hne => absurd rfl hne⟩
    · rw [he]
      refine ⟨fun h200 => ?_, fun _ => rfl⟩
      cases answer with
      | ok r => exact absurd h200 (hans r rfl)
      | error e => cases h200

def putAlice : HttpRequest where
  method := .PUT
  path := (splitTarget (bytes "/api/segments/alice/alice0.ts")).1
  headers := AList.insert (bytes "X-Storage-Key") (bytes "123") ∅
  body := bytes "abcd"

/-- The disk fills up in the middle of the body. -/
theorem putAlice_not_atomic :
    ¬ pocket.PutAtomic (fun _ => none) ⟨true, true, true, true, false, 2⟩ putAlice := by
  intro h
  obtain ⟨s, f, hs, hf, he⟩ := (h _ _ rfl rfl).1 rfl
  cases Option.some.inj hs
  cases Option.some.inj hf
  exact absurd he (by decide)

end StreamPocket

end Ryklys

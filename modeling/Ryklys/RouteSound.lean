import Ryklys.Server

/-!
# Route dispatch against the registrations

`dispatch_iff`: for a request that is neither an upgrade nor a preflight,
`HandleRead` runs the handler the registrations ask for exactly when the first
exact registration of the request's path, if there is one, is for the
request's method. The exact-path lookup does not look at the method, and a
second registration of an exact path is not kept.
-/

namespace Ryklys

inductive Registration where
  | route (method : HttpMethod) (path : Bytes) (handler : Option HttpHandler)
  | authenticated (method : HttpMethod) (path : Bytes) (handler : Option AuthenticatedHttpHandler)

namespace Registration

def method : Registration → HttpMethod
  | route m _ _ => m
  | authenticated m _ _ => m

def path : Registration → Bytes
  | route _ p _ => p
  | authenticated _ p _ => p

def handler : Registration → RouteHandler
  | route _ _ h => .route h
  | authenticated _ _ h => .authenticated h

def isPattern (r : Registration) : Bool := isPatternPath r.path

def node (r : Registration) (i : Nat) : PathTreeNode := ⟨i, r.method, r.handler⟩

def apply (S : ZvejysServer) : Registration → ZvejysServer
  | route m p h => S.registerRoute m p h
  | authenticated m p h => S.registerAuthenticatedRoute m p h

theorem apply_eq (S : ZvejysServer) (r : Registration) : r.apply S = S.register r.method r.path r.handler := by
  cases r <;> rfl

def Matches (r : Registration) (request : HttpRequest) : Prop :=
  r.method = request.method ∧
    if r.isPattern then (ZvejysServer.matchPattern r.path request.path ∅).1 = true else r.path = request.path

instance (r : Registration) (request : HttpRequest) : Decidable (r.Matches request) := by
  unfold Matches; infer_instance

end Registration

def ZvejysServer.registerAll (S : ZvejysServer) (calls : List Registration) : ZvejysServer :=
  calls.foldl Registration.apply S

/-- What the registrations ask of the answer to a request. -/
structure Dispatched (calls : List Registration) (request : HttpRequest) (ran : Option Nat)
    (response : HttpResponse) : Prop where
  -- only a matching registration's handler runs, exact before patterns, patterns in order
  only : ∀ i, ran = some i → ∃ r, calls[i]? = some r ∧ r.Matches request ∧
    (r.isPattern → (∀ r' ∈ calls, r'.isPattern = false → ¬ r'.Matches request) ∧
      ∀ j r', j < i → calls[j]? = some r' → r'.isPattern → ¬ r'.Matches request)
  -- a matching registration leads to a run
  runs : (∃ r ∈ calls, r.Matches request) → ran.isSome
  -- no matching registration leads to an error and no run
  error : (∀ r ∈ calls, ¬ r.Matches request) → ran = none ∧ response.IsError

def Answer.Dispatched (calls : List Registration) (request : HttpRequest) : Answer → Prop
  | .switching _ _ => False
  | .queued ran response => Ryklys.Dispatched calls request ran response

/-- The first registration of an exact path. -/
def firstExact (calls : List Registration) (path : Bytes) : Option Registration :=
  calls.find? fun r => !r.isPattern && decide (r.path = path)

/-! ## The tables after the registrations -/

section
variable (config : CorsConfig) (auth : Option ExtractAuthUserFromRequest) (calls : List Registration)

theorem registerAll_snoc (S : ZvejysServer) (r : Registration) :
    S.registerAll (calls ++ [r]) = (S.registerAll calls).register r.method r.path r.handler := by
  rw [ZvejysServer.registerAll, List.foldl_append, List.foldl_cons, List.foldl_nil, Registration.apply_eq]
  rfl

theorem nodes_registerAll : ((ZvejysServer.new config auth).registerAll calls).nodes = calls.length := by
  induction calls using List.reverseRecOn with
  | nil => rfl
  | append_singleton calls r ih =>
    rw [registerAll_snoc, ZvejysServer.register]
    split <;> simp [ih]

theorem patternRoutes_registerAll :
    ((ZvejysServer.new config auth).registerAll calls).patternRoutes =
      (calls.zipIdx.filter fun ri => ri.1.isPattern).map fun ri => (ri.1.path, ri.1.node ri.2) := by
  induction calls using List.reverseRecOn with
  | nil => rfl
  | append_singleton calls r ih =>
    rw [registerAll_snoc, ZvejysServer.register, nodes_registerAll, List.zipIdx_append, List.filter_append,
      List.map_append, ← ih]
    by_cases h : isPatternPath r.path = true
    · have h' : r.isPattern = true := h
      rw [if_pos h]
      simp [h', Registration.node]
    · have h' : r.isPattern = false := Bool.not_eq_true _ ▸ h
      rw [if_neg h]
      simp [h']

theorem lookup_registerAll (path : Bytes) :
    ((ZvejysServer.new config auth).registerAll calls).routeMap.lookup path =
      (calls.zipIdx.find? fun ri => !ri.1.isPattern && decide (ri.1.path = path)).map
        fun ri => ri.1.node ri.2 := by
  induction calls using List.reverseRecOn with
  | nil => rfl
  | append_singleton calls r ih =>
    rw [registerAll_snoc, ZvejysServer.register, nodes_registerAll, List.zipIdx_append, List.find?_append,
      Option.map_or, ← ih]
    by_cases h : isPatternPath r.path = true
    · have h' : r.isPattern = true := h
      rw [if_pos h]
      simp [h']
    · have h' : r.isPattern = false := Bool.not_eq_true _ ▸ h
      rw [if_neg h]
      by_cases hp : r.path = path
      · subst hp
        split
        · rename_i hm
          obtain ⟨n, hn⟩ := Option.isSome_iff_exists.mp (AList.lookup_isSome.mpr hm)
          rw [hn]; rfl
        · rename_i hm
          rw [AList.lookup_insert, AList.lookup_eq_none.mpr hm]
          simp [h', Registration.node]
      · have hne : (if r.path ∈ ((ZvejysServer.new config auth).registerAll calls).routeMap then
            ((ZvejysServer.new config auth).registerAll calls).routeMap
          else ((ZvejysServer.new config auth).registerAll calls).routeMap.insert r.path
            ⟨calls.length, r.method, r.handler⟩).lookup path =
            ((ZvejysServer.new config auth).registerAll calls).routeMap.lookup path := by
          split
          · rfl
          · exact AList.lookup_insert_ne (Ne.symm hp)
        refine hne.trans ?_
        simp [hp]

end

/-! ## The pattern loop -/

theorem patternLoop_ran (S : ZvejysServer) (request : HttpRequest) : ∀ rs : List (Registration × Nat),
    (∀ ri ∈ rs, ri.1.isPattern = true) →
    (S.patternLoop request (rs.map fun ri => (ri.1.path, ri.1.node ri.2))).1 =
      (rs.find? fun ri => decide (ri.1.Matches request)).map Prod.snd
  | [], _ => rfl
  | (r, i) :: rs, h => by
    have hr := h (r, i) (by simp)
    have ih := patternLoop_ran S request rs fun ri hri => h ri (by simp [hri])
    rw [List.map_cons, ZvejysServer.patternLoop, List.find?_cons]
    have hm : (r.Matches request) ↔
        (ZvejysServer.matchPattern r.path request.path ∅).1 = true ∧ r.method = request.method := by
      unfold Registration.Matches
      rw [if_pos hr]
      exact And.comm
    by_cases hmat : r.Matches request
    · have := hm.mp hmat
      simp [hmat, this.1, this.2, Registration.node]
    · have : ¬ ((ZvejysServer.matchPattern r.path request.path ∅).1 &&
          decide ((r.node i).routeMethod = request.method)) = true := by
        rw [Bool.and_eq_true, decide_eq_true_eq]
        exact fun hc => hmat (hm.mpr hc)
      rw [if_neg this, ih]
      simp [hmat]

theorem patternLoop_none (S : ZvejysServer) (request : HttpRequest) : ∀ routes,
    (S.patternLoop request routes).1 = none →
      (S.patternLoop request routes).2 = .ok (.notFound (bytes "Route not found"))
  | [], _ => rfl
  | (pattern, node) :: routes, h => by
    rw [ZvejysServer.patternLoop] at h ⊢
    split at h
    · cases h
    · rename_i hc
      rw [if_neg hc]
      exact patternLoop_none S request routes h

/-! ## Dispatch -/

theorem zipIdx_find?_some {α : Type} (p : α × Nat → Bool) : ∀ (l : List α) (n : Nat) {a : α} {i : Nat},
    (l.zipIdx n).find? p = some (a, i) →
      n ≤ i ∧ l[i - n]? = some a ∧ p (a, i) = true ∧ ∀ j b, n ≤ j → j < i → l[j - n]? = some b → p (b, j) = false
  | [], _, _, _, h => by simp at h
  | x :: l, n, a, i, h => by
    rw [List.zipIdx_cons, List.find?_cons] at h
    cases hx : p (x, n) with
    | true =>
      simp only [hx, Option.some.injEq, Prod.mk.injEq] at h
      obtain ⟨rfl, rfl⟩ := h
      exact ⟨Nat.le_refl _, by simp, hx, fun j b h1 h2 => by omega⟩
    | false =>
      simp only [hx] at h
      obtain ⟨h1, h2, h3, h4⟩ := zipIdx_find?_some p l (n + 1) h
      refine ⟨by omega, ?_, h3, fun j b hj hji hb => ?_⟩
      · rw [show i - n = (i - (n + 1)) + 1 by omega, List.getElem?_cons_succ, h2]
      · rcases Nat.eq_or_lt_of_le hj with rfl | hlt
        · simp only [Nat.sub_self, List.getElem?_cons_zero, Option.some.injEq] at hb
          exact hb ▸ hx
        · rw [show j - n = (j - (n + 1)) + 1 by omega, List.getElem?_cons_succ] at hb
          exact h4 j b hlt hji hb

section
variable (config : CorsConfig) (auth : Option ExtractAuthUserFromRequest) (calls : List Registration)
  (request : HttpRequest)

def exactEntry : Option (Registration × Nat) :=
  calls.zipIdx.find? fun ri => !ri.1.isPattern && decide (ri.1.path = request.path)

def patternEntry : Option (Registration × Nat) :=
  calls.zipIdx.find? fun ri => ri.1.isPattern && decide (ri.1.Matches request)

theorem firstExact_eq : firstExact calls request.path = (exactEntry calls request).map Prod.fst := by
  unfold firstExact exactEntry
  conv => lhs; rw [← List.zipIdx_map_fst 0 calls, List.find?_map]
  rfl

theorem dispatch_ran :
    (((ZvejysServer.new config auth).registerAll calls).dispatch request).1 =
      ((exactEntry calls request).or (patternEntry calls request)).map Prod.snd := by
  unfold ZvejysServer.dispatch exactEntry patternEntry
  rw [lookup_registerAll]
  cases hx : calls.zipIdx.find? fun ri => !ri.1.isPattern && decide (ri.1.path = request.path) with
  | some ri => rfl
  | none =>
    simp only [Option.map_none, Option.none_or, patternRoutes_registerAll]
    rw [patternLoop_ran _ _ _ fun ri hri => (List.mem_filter.mp hri).2, List.find?_filter]
    simp only [Bool.decide_and, Bool.decide_eq_true]

theorem dispatch_none
    (h : (((ZvejysServer.new config auth).registerAll calls).dispatch request).1 = none) :
    (((ZvejysServer.new config auth).registerAll calls).dispatch request).2 =
      .ok (.notFound (bytes "Route not found")) := by
  unfold ZvejysServer.dispatch at h ⊢
  split at h
  · cases h
  · exact patternLoop_none _ _ _ h

theorem exact_matches {r : Registration} (hr : r.isPattern = false) :
    r.Matches request ↔ r.method = request.method ∧ r.path = request.path := by
  simp [Registration.Matches, hr]

theorem dispatched_of_no_exact (response : HttpResponse) (hx : exactEntry calls request = none)
    (hres : patternEntry calls request = none → response.IsError) :
    Dispatched calls request ((patternEntry calls request).map Prod.snd) response := by
  have hno : ∀ r ∈ calls, r.isPattern = false → ¬ r.Matches request := by
    intro r hr hp hm
    obtain ⟨i, hi⟩ := List.mem_iff_getElem?.mp hr
    have := List.find?_eq_none.mp hx (r, i) (by rw [List.mem_zipIdx_iff_getElem?]; exact hi)
    simp [hp, ((exact_matches request hp).mp hm).2] at this
  refine ⟨fun i hi => ?_, fun ⟨r, hr, hm⟩ => ?_, fun hall => ?_⟩
  · obtain ⟨⟨r, i'⟩, hri, rfl⟩ := Option.map_eq_some_iff.mp hi
    obtain ⟨-, h1, h2, h3⟩ := zipIdx_find?_some _ _ _ hri
    simp only [Nat.sub_zero, Bool.and_eq_true, decide_eq_true_eq] at h1 h2
    refine ⟨r, h1, h2.2, fun _ => ⟨hno, fun j r' hj hr' hp hm => ?_⟩⟩
    have := h3 j r' (Nat.zero_le _) hj (by simpa using hr')
    simp [hp, hm] at this
  · cases hp : r.isPattern with
    | false => exact absurd hm (hno r hr hp)
    | true =>
      obtain ⟨i, hi⟩ := List.mem_iff_getElem?.mp hr
      rw [Option.isSome_map, patternEntry, List.find?_isSome]
      exact ⟨(r, i), by rw [List.mem_zipIdx_iff_getElem?]; exact hi, by simp [hp, hm]⟩
  · have hnone : patternEntry calls request = none := by
      refine List.find?_eq_none.mpr fun ri hri => ?_
      rw [List.mem_zipIdx_iff_getElem?] at hri
      simp [hall ri.1 (List.mem_of_getElem? hri)]
    exact ⟨by rw [hnone]; rfl, hres hnone⟩

theorem dispatched_of_exact (response : HttpResponse) {r : Registration} {i : Nat}
    (hx : exactEntry calls request = some (r, i)) :
    Dispatched calls request (some i) response ↔ r.method = request.method := by
  obtain ⟨-, h1, h2, -⟩ := zipIdx_find?_some _ _ _ hx
  simp only [Nat.sub_zero, Bool.and_eq_true, Bool.not_eq_true', decide_eq_true_eq] at h1 h2
  constructor
  · intro h
    obtain ⟨r', hr', hm, -⟩ := h.only i rfl
    rw [h1] at hr'
    exact Option.some.inj hr' ▸ hm.1
  · intro hm
    have hmat : r.Matches request := (exact_matches request h2.1).mpr ⟨hm, h2.2⟩
    refine ⟨fun j hj => ⟨r, by cases hj; exact h1, hmat, fun hp => ?_⟩, fun _ => rfl, fun hall => ?_⟩
    · rw [h2.1] at hp; cases hp
    · exact absurd hmat (hall r (List.mem_of_getElem? h1))

end

/-- **Dispatch.** `HandleRead` runs what the registrations ask for exactly when
the first exact registration of the request's path has the request's method. -/
theorem handleRead_dispatched_iff (config : CorsConfig) (auth : Option ExtractAuthUserFromRequest)
    (calls : List Registration) (request : HttpRequest) (hup : isWsUpgrade request = false)
    (hpre : isCorsPreflight request = false) :
    (((ZvejysServer.new config auth).registerAll calls).handleRead request).Dispatched calls request ↔
      ∀ r, firstExact calls request.path = some r → r.method = request.method := by
  unfold ZvejysServer.handleRead
  rw [if_neg (by simp [hup]), if_neg (by simp [hpre])]
  simp only [Answer.Dispatched, firstExact_eq]
  -- an entry of the route map decides alone, and only its method can be wrong
  cases hx : exactEntry calls request with
  | some ri =>
    obtain ⟨r, i⟩ := ri
    rw [dispatch_ran, hx]
    simpa using dispatched_of_exact calls request _ hx
  | none =>
    simp only [Option.map_none, reduceCtorEq, false_implies, implies_true, iff_true]
    have hran := dispatch_ran config auth calls request
    rw [hx, Option.none_or] at hran
    rw [hran]
    refine dispatched_of_no_exact calls request _ hx fun hp => ?_
    rw [dispatch_none _ _ _ _ (by rw [hran, hp]; rfl)]
    simp only [HttpResponse.IsError, Cors.applyCorsHeaders_statusCode]
    decide

def getThenPost : List Registration :=
  [.route .GET (bytes "/a") (some fun _ => .ok { statusCode := 200, statusText := bytes "OK" }),
   .route .POST (bytes "/a") (some fun _ => .ok { statusCode := 201, statusText := bytes "Created" })]

theorem handleRead_dispatched_get :
    (((ZvejysServer.new {} none).registerAll getThenPost).handleRead { method := .GET, path := bytes "/a" }).Dispatched
      getThenPost { method := .GET, path := bytes "/a" } := by
  refine (handleRead_dispatched_iff {} none getThenPost _ (by decide) (by decide)).mpr ?_
  intro r hr
  cases Option.some.inj hr
  rfl

/-- A POST to this path runs the handler for GET. -/
theorem handleRead_misdispatched :
    isWsUpgrade { method := .POST, path := bytes "/a" } = false ∧
    isCorsPreflight { method := .POST, path := bytes "/a" } = false ∧
    ¬ (((ZvejysServer.new {} none).registerAll getThenPost).handleRead
        { method := .POST, path := bytes "/a" }).Dispatched
      getThenPost { method := .POST, path := bytes "/a" } := by
  refine ⟨by decide, by decide, ?_⟩
  intro h
  obtain ⟨r, hr, hm, -⟩ := Dispatched.only h 0 rfl
  cases Option.some.inj hr
  exact absurd hm.1 (by decide)

end Ryklys

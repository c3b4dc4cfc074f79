import Ryklys.RadixTreeSound
import Ryklys.RouteSound

/-!
# The route table on the radix tree

`route_map_` is a radix tree from paths to shared node pointers. A server whose
table is that tree answers every request as the one over a plain map does
(`tree_dispatch`), and the number of routes it prints is the number of entries
of the two tables.
-/

namespace Ryklys

/-- The server with the tree in the place of the map. -/
structure TreeServer where
  routeMap : RadixTree UInt8 (Option PathTreeNode)
  patternRoutes : List (Bytes × PathTreeNode)
  cors : Cors
  authFunc : Option ExtractAuthUserFromRequest
  nodes : Nat

namespace TreeServer

def new (config : CorsConfig) (authFunc : Option ExtractAuthUserFromRequest) : TreeServer :=
  ⟨⟨none, 0⟩, [], Cors.ofConfig config, authFunc, 0⟩

def register (S : TreeServer) (B : Buckets UInt8 (Option PathTreeNode)) (method : HttpMethod) (path : Bytes)
    (handler : RouteHandler) : TreeServer :=
  let node : PathTreeNode := ⟨S.nodes, method, handler⟩
  if isPatternPath path then
    { S with patternRoutes := S.patternRoutes ++ [(path, node)], nodes := S.nodes + 1 }
  else
    { S with routeMap := S.routeMap.insert B path (some node), nodes := S.nodes + 1 }

def registerAll (S : TreeServer) (calls : List (Buckets UInt8 (Option PathTreeNode) × Registration)) : TreeServer :=
  calls.foldl (fun S c => S.register c.1 c.2.method c.2.path c.2.handler) S

/-- The server without its exact routes. -/
def rest (S : TreeServer) : ZvejysServer := ⟨∅, S.patternRoutes, S.cors, S.authFunc, S.nodes⟩

/-- A null pointer that was found would be called through. -/
def dispatch (S : TreeServer) (request : HttpRequest) : Option (Option Nat × Except Exn HttpResponse) :=
  match S.routeMap.find request.path with
  | some (some node) => some (some node.id, node.handleRequest S.authFunc request)
  | some none => none
  | none => some (S.rest.patternLoop request S.patternRoutes)

/-- What `DebugHttpRoutes` counts. -/
def routeCount (S : TreeServer) : Nat := S.routeMap.size + S.patternRoutes.length

/-! ## The tree against the map -/

section
variable {τ : Type} (m : AList fun _ : Bytes => τ) (key : Bytes) (value : τ)

theorem lookup_emplace (k : Bytes) :
    (if key ∈ m then m else m.insert key value).lookup k = (m.lookup k).or (if k = key then some value else none) := by
  by_cases hk : k = key
  · subst hk
    by_cases hm : k ∈ m
    · obtain ⟨v, hv⟩ := Option.isSome_iff_exists.mp (AList.lookup_isSome.mpr hm)
      rw [if_pos hm, hv]
      rfl
    · rw [if_neg hm, AList.lookup_insert, AList.lookup_eq_none.mpr hm, if_pos rfl]
      rfl
  · rw [if_neg hk, Option.or_none]
    split
    · rfl
    · exact AList.lookup_insert_ne hk

theorem length_emplace :
    (if key ∈ m then m else m.insert key value).keys.length =
      m.keys.length + if (m.lookup key).isNone then 1 else 0 := by
  by_cases hm : key ∈ m
  · obtain ⟨v, hv⟩ := Option.isSome_iff_exists.mp (AList.lookup_isSome.mpr hm)
    rw [if_pos hm, hv]
    rfl
  · rw [if_neg hm, AList.keys_insert, @List.erase_of_not_mem Bytes instBEqOfDecidableEq _ key m.keys hm,
      List.length_cons, AList.lookup_eq_none.mpr hm]
    rfl

end

structure Refines (S : TreeServer) (A : ZvejysServer) : Prop where
  inv : S.routeMap.Inv
  finds : ∀ path, S.routeMap.find path = (A.routeMap.lookup path).map some
  counts : S.routeMap.size = A.routeMap.keys.length
  patternRoutes : S.patternRoutes = A.patternRoutes
  cors : S.cors = A.cors
  authFunc : S.authFunc = A.authFunc
  nodes : S.nodes = A.nodes

theorem refines_new (config : CorsConfig) (authFunc : Option ExtractAuthUserFromRequest) :
    Refines (new config authFunc) (ZvejysServer.new config authFunc) :=
  ⟨RadixTree.inv_empty, fun _ => rfl, rfl, rfl, rfl, rfl, rfl⟩

variable {S : TreeServer} {A : ZvejysServer}

theorem Refines.register (h : Refines S A) (B : Buckets UInt8 (Option PathTreeNode)) (method : HttpMethod)
    (path : Bytes) (handler : RouteHandler) :
    Refines (S.register B method path handler) (A.register method path handler) := by
  rw [TreeServer.register, ZvejysServer.register, h.nodes, h.patternRoutes]
  by_cases hp : isPatternPath path = true
  · rw [if_pos hp, if_pos hp]
    exact ⟨h.inv, h.finds, h.counts, rfl, h.cors, h.authFunc, rfl⟩
  · rw [if_neg hp, if_neg hp]
    obtain ⟨hinv, hfind, hsize⟩ :=
      RadixTree.insert_step B path (some (⟨A.nodes, method, handler⟩ : PathTreeNode)) h.inv
    refine ⟨hinv, fun k => ?_, ?_, rfl, h.cors, h.authFunc, rfl⟩
    · rw [hfind k, h.finds k, lookup_emplace, Option.map_or]
      by_cases hk : k = path
      · rw [if_pos hk, if_pos hk, Option.map_some]
      · rw [if_neg hk, if_neg hk, Option.map_none]
    · rw [hsize, h.counts, h.finds path, Option.isNone_map, length_emplace]

theorem refines_registerAll (config : CorsConfig) (authFunc : Option ExtractAuthUserFromRequest)
    (calls : List (Buckets UInt8 (Option PathTreeNode) × Registration)) :
    Refines ((new config authFunc).registerAll calls)
      ((ZvejysServer.new config authFunc).registerAll (calls.map Prod.snd)) := by
  induction calls using List.reverseRecOn with
  | nil => exact refines_new config authFunc
  | append_singleton calls c ih =>
    rw [TreeServer.registerAll, List.foldl_append, List.map_append, List.map_singleton, registerAll_snoc]
    exact ih.register c.1 c.2.method c.2.path c.2.handler

theorem Refines.dispatch (h : Refines S A) (request : HttpRequest) :
    S.dispatch request = some (A.dispatch request) := by
  rw [TreeServer.dispatch, ZvejysServer.dispatch, h.finds request.path, h.authFunc]
  cases A.routeMap.lookup request.path with
  | some node => rfl
  | none =>
    -- the loop looks at the routes and the extractor alone
    have hloop : ∀ routes, S.rest.patternLoop request routes = A.patternLoop request routes := by
      intro routes
      induction routes with
      | nil => rfl
      | cons r routes ih =>
        obtain ⟨pattern, node⟩ := r
        rw [ZvejysServer.patternLoop, ZvejysServer.patternLoop, ih, rest, h.authFunc]
    exact congrArg some ((hloop _).trans (congrArg _ h.patternRoutes))

theorem length_keys_registerAll (config : CorsConfig) (authFunc : Option ExtractAuthUserFromRequest)
    (calls : List Registration) :
    ((ZvejysServer.new config authFunc).registerAll calls).routeMap.keys.length =
      ((calls.filter fun r => !r.isPattern).map Registration.path).toFinset.card := by
  set m := ((ZvejysServer.new config authFunc).registerAll calls).routeMap with hm
  rw [← List.toFinset_card_of_nodup m.keys_nodup]
  congr 1
  ext path
  rw [List.mem_toFinset, List.mem_toFinset, AList.mem_keys.symm, ← AList.lookup_isSome, hm, lookup_registerAll,
    Option.isSome_map, List.find?_isSome]
  constructor
  · rintro ⟨⟨r, i⟩, hr, hp⟩
    obtain ⟨hx, hpath⟩ := Bool.and_eq_true_iff.mp hp
    exact List.mem_map.mpr ⟨r, List.mem_filter.mpr ⟨List.fst_mem_of_mem_zipIdx hr, hx⟩, of_decide_eq_true hpath⟩
  · intro hp
    obtain ⟨r, hr, rfl⟩ := List.mem_map.mp hp
    obtain ⟨hmem, hx⟩ := List.mem_filter.mp hr
    obtain ⟨i, hi⟩ := List.mem_iff_getElem?.mp hmem
    exact ⟨(r, i), List.mem_zipIdx_iff_getElem?.mpr hi, Bool.and_eq_true_iff.mpr ⟨hx, decide_eq_true rfl⟩⟩

/-- Whatever the bucket orders of the registrations, the tree never hands out a
null pointer, and dispatch over it is dispatch over the map. -/
theorem tree_dispatch (config : CorsConfig) (authFunc : Option ExtractAuthUserFromRequest)
    (calls : List (Buckets UInt8 (Option PathTreeNode) × Registration)) :
    (∀ request, ((new config authFunc).registerAll calls).dispatch request =
      some (((ZvejysServer.new config authFunc).registerAll (calls.map Prod.snd)).dispatch request)) ∧
      ((new config authFunc).registerAll calls).routeCount =
        (((calls.map Prod.snd).filter fun r => !r.isPattern).map Registration.path).toFinset.card +
          ((calls.map Prod.snd).filter Registration.isPattern).length := by
  have href := refines_registerAll config authFunc calls
  refine ⟨href.dispatch, ?_⟩
  rw [routeCount, href.counts, href.patternRoutes, length_keys_registerAll, patternRoutes_registerAll,
    List.length_map]
  congr 1
  conv => rhs; rw [← List.zipIdx_map_fst 0 (calls.map Prod.snd), List.filter_map, List.length_map]
  rfl

end TreeServer

end Ryklys

import Mathlib.Data.Finset.Card
import Mathlib.Data.List.Nodup
import Ryklys.RadixTree

/-!
# The radix tree is a map

The edges below a node differ in their first symbol, so at most one of them
leads on to a key (`leads_unique`) and the order of the children does not
matter. `insert` keeps that, and what it adds is found exactly under its own
key, where nothing was found before (`insertNode_adds`).
-/

namespace Ryklys

/-- The edge goes towards `s`: it is a part of it, and the empty edge is for
the empty key alone. -/
def Leads {α : Type} (edge s : List α) : Prop := edge <+: s ∧ (edge = [] → s = [])

/-! ## The edge that leads on -/

variable {α : Type}

theorem Leads.head?_eq {edge s : List α} (h : Leads edge s) : edge.head? = s.head? := by
  obtain ⟨⟨t, rfl⟩, hnil⟩ := h
  cases edge with
  | nil => rw [hnil rfl]
  | cons a edge => rfl

theorem leads_self (s : List α) : Leads s s := ⟨List.prefix_refl s, id⟩

theorem leads_of_part {edge s : List α} (h : edge <+: s) (hne : edge ≠ []) : Leads edge s :=
  ⟨h, fun he => absurd he hne⟩

theorem leads_nil {s : List α} : Leads [] s ↔ s = [] := ⟨fun h => h.2 rfl, fun h => h ▸ leads_self []⟩

theorem leads_append {u edge t : List α} (hne : edge ≠ []) : Leads (u ++ edge) (u ++ t) ↔ Leads edge t := by
  constructor
  · intro h
    exact leads_of_part ((List.prefix_append_right_inj u).mp h.1) hne
  · intro h
    exact leads_of_part ((List.prefix_append_right_inj u).mpr h.1) (by simp [hne])

namespace RadixNode

variable {α τ : Type}

/-- The node stands at `p`, and so on below. -/
inductive Wf : List α → RadixNode α τ → Prop
  | node {p : List α} {x : τ} {cs : RadixChildren α τ} (heads : (cs.map fun c => c.1.head?).Nodup)
      (below : ∀ c ∈ cs, Wf (p ++ c.1) c.2) (terminal : ∀ c ∈ cs, c.1 = [] → c.2.children = []) :
      Wf p (node p x p.length cs)

structure WfChildren (p : List α) (cs : RadixChildren α τ) : Prop where
  heads : (cs.map fun c => c.1.head?).Nodup
  below : ∀ c ∈ cs, Wf (p ++ c.1) c.2
  terminal : ∀ c ∈ cs, c.1 = [] → c.2.children = []

theorem wf_iff {p k : List α} {x : τ} {d : Nat} {cs : RadixChildren α τ} :
    Wf p (node k x d cs) ↔ (k = p ∧ d = p.length) ∧ WfChildren p cs := by
  constructor
  · intro h
    cases h with
    | node heads below terminal => exact ⟨⟨rfl, rfl⟩, heads, below, terminal⟩
  · rintro ⟨⟨rfl, rfl⟩, h⟩
    exact .node h.heads h.below h.terminal

theorem Wf.key_eq {p : List α} {n : RadixNode α τ} (h : Wf p n) : n.key = p := by
  cases h
  rfl

theorem Wf.depth_eq {p : List α} {n : RadixNode α τ} (h : Wf p n) : n.depth = p.length := by
  cases h
  rfl

theorem Wf.searchKey_eq {p edge : List α} {n : RadixNode α τ} (h : Wf (p ++ edge) n) :
    n.searchKey p.length = edge := by
  rw [searchKey, h.key_eq, h.depth_eq, List.drop_left]
  exact List.take_of_length_le (by rw [List.length_append]; omega)

theorem wf_leaf (p : List α) (x : τ) : Wf p (node p x p.length []) :=
  .node List.nodup_nil (fun c hc => by cases hc) fun c hc => by cases hc

/-! ## The children -/

variable {p s t : List α} {cs cs' : RadixChildren α τ} {c c' : List α × RadixNode α τ}

theorem WfChildren.head_inj (h : WfChildren p cs) (hc : c ∈ cs) (hc' : c' ∈ cs) (he : c.1.head? = c'.1.head?) :
    c = c' :=
  List.inj_on_of_nodup_map h.heads hc hc' he

theorem WfChildren.leads_unique (h : WfChildren p cs) (hc : c ∈ cs) (hc' : c' ∈ cs) (hl : Leads c.1 s)
    (hl' : Leads c'.1 s) : c = c' :=
  h.head_inj hc hc' (hl.head?_eq.trans hl'.head?_eq.symm)

theorem WfChildren.tail (h : WfChildren p (c :: cs)) : WfChildren p cs :=
  ⟨(List.nodup_cons.mp h.heads).2, fun x hx => h.below x (List.mem_cons_of_mem c hx),
    fun x hx => h.terminal x (List.mem_cons_of_mem c hx)⟩

theorem WfChildren.perm (h : WfChildren p cs) (hp : cs'.Perm cs) : WfChildren p cs' :=
  ⟨(hp.map _).nodup_iff.mpr h.heads, fun x hx => h.below x (hp.mem_iff.mp hx),
    fun x hx => h.terminal x (hp.mem_iff.mp hx)⟩

theorem WfChildren.heads_ne (h : WfChildren p cs) (hp : cs.Perm (c :: cs')) (hc' : c' ∈ cs') :
    c'.1.head? ≠ c.1.head? := by
  intro he
  have hheads := (h.perm hp.symm).heads
  rw [List.map_cons, List.nodup_cons] at hheads
  exact hheads.1 (List.mem_map.mpr ⟨c', hc', he⟩)

theorem WfChildren.cons (h : WfChildren p cs) (hh : ∀ x ∈ cs, x.1.head? ≠ c.1.head?) (hw : Wf (p ++ c.1) c.2)
    (ht : c.1 = [] → c.2.children = []) : WfChildren p (c :: cs) := by
  refine ⟨?_, ?_, ?_⟩
  · rw [List.map_cons, List.nodup_cons]
    refine ⟨?_, h.heads⟩
    intro hm
    obtain ⟨x, hx, he⟩ := List.mem_map.mp hm
    exact hh x hx he
  · exact List.forall_mem_cons.mpr ⟨hw, h.below⟩
  · exact List.forall_mem_cons.mpr ⟨ht, h.terminal⟩

theorem wfChildren_nil : WfChildren p ([] : RadixChildren α τ) where
  heads := List.nodup_nil
  below := fun c hc => by cases hc
  terminal := fun c hc => by cases hc

/-! ## find -/

theorem take_iff {edge : List α} : edge = ((p ++ s).drop p.length).take edge.length ↔ edge <+: s := by
  rw [List.drop_left, List.prefix_iff_eq_take]

variable [DecidableEq α]

theorem findNode_leaf {n : RadixNode α τ} (h : Wf p n) (hch : n.children = []) :
    findNode (p ++ s) p.length n = if s = [] then some n else none := by
  have hiff : p.length = (p ++ s).length ∧ p = p ++ s ↔ s = [] := by
    constructor
    · intro h
      exact List.self_eq_append_right.mp h.2
    · rintro rfl
      rw [List.append_nil]
      exact ⟨rfl, rfl⟩
  cases h with
  | node heads below terminal =>
    rw [children] at hch
    subst hch
    simp only [findNode, List.isEmpty_nil, if_true, hiff]

theorem findNode_inner {n : RadixNode α τ} (k : Nat) (hch : n.children ≠ []) :
    findNode s k n = findChild s k n.children := by
  cases n with
  | node key x d cs =>
    rw [children] at hch
    rw [findNode, if_neg (by simpa using hch), children]

theorem findChild_leads (h : WfChildren p cs) (hc : c ∈ cs) (hl : Leads c.1 s) :
    findChild (p ++ s) p.length cs = findNode (p ++ s) (p.length + c.1.length) c.2 := by
  induction cs with
  | nil => cases hc
  | cons x cs ih =>
    obtain ⟨edge, child⟩ := x
    simp only [findChild, take_iff]
    by_cases hpre : 0 < edge.length ∧ edge <+: s
    · have hx := h.leads_unique hc (List.mem_cons_self ..) hl
        (leads_of_part hpre.2 (List.ne_nil_of_length_pos hpre.1))
      rw [if_pos hpre, hx]
    rw [if_neg hpre]
    have hw := h.below (edge, child) (List.mem_cons_self ..)
    by_cases hterm : edge.length = 0 ∧ child.isLeaf ∧ child.depth = (p ++ s).length ∧ child.key = p ++ s
    · rw [if_pos hterm]
      obtain ⟨hlen, -, -, hkey⟩ := hterm
      have hnil := List.length_eq_zero_iff.mp hlen
      subst hnil
      rw [hw.key_eq, List.append_nil, List.self_eq_append_right] at hkey
      subst hkey
      have hx := h.leads_unique hc (List.mem_cons_self ..) hl (leads_self [])
      have hleaf := findNode_leaf (s := []) hw (h.terminal ([], child) (List.mem_cons_self ..) rfl)
      rw [if_pos rfl, List.append_nil, List.append_nil] at hleaf
      rw [hx, List.append_nil, List.length_nil, Nat.add_zero, hleaf]
    · rw [if_neg hterm]
      rcases List.mem_cons.mp hc with rfl | hc
      · -- the first child leads on, so one of the two tests is met
        exfalso
        by_cases hnil : edge = []
        · subst hnil
          have hs := leads_nil.mp hl
          subst hs
          apply hterm
          have hch := h.terminal ([], child) (List.mem_cons_self ..) rfl
          refine ⟨rfl, ?_, ?_, ?_⟩
          · rw [isLeaf, hch]
            rfl
          · rw [hw.depth_eq]
          · rw [hw.key_eq]
        · exact hpre ⟨List.length_pos_of_ne_nil hnil, hl.1⟩
      · exact ih h.tail hc

theorem findChild_none (h : WfChildren p cs) (hn : ∀ c ∈ cs, ¬ Leads c.1 s) :
    findChild (p ++ s) p.length cs = none := by
  induction cs with
  | nil => rfl
  | cons x cs ih =>
    obtain ⟨edge, child⟩ := x
    have hx := hn (edge, child) (List.mem_cons_self ..)
    have hw := h.below (edge, child) (List.mem_cons_self ..)
    simp only [findChild, take_iff]
    rw [if_neg, if_neg]
    · exact ih h.tail fun c hc => hn c (List.mem_cons_of_mem _ hc)
    · rintro ⟨hlen, -, -, hkey⟩
      have hnil := List.length_eq_zero_iff.mp hlen
      subst hnil
      rw [hw.key_eq, List.append_nil, List.self_eq_append_right] at hkey
      exact hx (leads_nil.mpr hkey)
    · rintro ⟨hlen, hpre⟩
      exact hx (leads_of_part hpre (List.ne_nil_of_length_pos hlen))

/-- Only the children that lead on to a key have a say in it. -/
theorem findChild_congr (h : WfChildren p cs) (h' : WfChildren p cs')
    (hm : ∀ c, Leads c.1 s → (c ∈ cs ↔ c ∈ cs')) :
    findChild (p ++ s) p.length cs = findChild (p ++ s) p.length cs' := by
  by_cases hex : ∃ c ∈ cs, Leads c.1 s
  · obtain ⟨c, hc, hl⟩ := hex
    rw [findChild_leads h hc hl, findChild_leads h' ((hm c hl).mp hc) hl]
  · rw [findChild_none h, findChild_none h']
    · intro c hc hl
      exact hex ⟨c, (hm c hl).mpr hc, hl⟩
    · intro c hc hl
      exact hex ⟨c, hc, hl⟩

/-! ## Two keys that part -/

theorem commonLength_split (edge s : List α) : ∃ u e' s', edge = u ++ e' ∧ s = u ++ s' ∧
    u.length = commonLength edge s ∧ (e' = [] ∨ e'.head? ≠ s'.head?) := by
  induction edge generalizing s with
  | nil => exact ⟨[], [], s, rfl, rfl, rfl, .inl rfl⟩
  | cons a edge ih =>
    cases s with
    | nil => exact ⟨[], a :: edge, [], rfl, rfl, rfl, .inr (by simp)⟩
    | cons b s =>
      by_cases hab : a = b
      · subst hab
        obtain ⟨u, e', s', he, hs, hlen, hpart⟩ := ih s
        refine ⟨a :: u, e', s', by rw [he, List.cons_append], by rw [hs, List.cons_append], ?_, hpart⟩
        rw [commonLength, if_pos rfl, List.length_cons, hlen]
      · refine ⟨[], a :: edge, b :: s, rfl, rfl, ?_, .inr ?_⟩
        · rw [commonLength, if_neg hab, List.length_nil]
        · simpa using hab

theorem head?_ne_of_commonLength {edge s : List α} (h : commonLength edge s = 0) (hne : edge ≠ s) :
    edge.head? ≠ s.head? := by
  obtain ⟨u, e', s', rfl, rfl, hlen, hpart⟩ := commonLength_split edge s
  have hu : u = [] := List.length_eq_zero_iff.mp (hlen.trans h)
  subst hu
  simp only [List.nil_append] at hne ⊢
  intro hh
  cases e' with
  | nil =>
    cases s' with
    | nil => exact hne rfl
    | cons b s' => cases hh
  | cons a e' =>
    rcases hpart with hx | hpart
    · cases hx
    · exact hpart hh

theorem sharing_none {s : List α} (h : sharing s cs = none) : ∀ c ∈ cs, commonLength c.1 s = 0 := by
  induction cs with
  | nil =>
    intro c hc
    cases hc
  | cons x cs ih =>
    obtain ⟨edge, child⟩ := x
    rw [sharing] at h
    split at h
    · cases h
    · rename_i hx
      exact List.forall_mem_cons.mpr ⟨Nat.eq_zero_of_not_pos hx, ih h⟩

theorem sharing_some {s edge : List α} {child : RadixNode α τ} {i : Nat} (h : sharing s cs = some (edge, child, i)) :
    (edge, child) ∈ cs ∧ 0 < i ∧ i = commonLength edge s := by
  induction cs with
  | nil => cases h
  | cons x cs ih =>
    obtain ⟨e, c⟩ := x
    rw [sharing] at h
    split at h
    · rename_i hx
      cases h
      exact ⟨List.mem_cons_self .., hx, rfl⟩
    · obtain ⟨hm, hrest⟩ := ih h
      exact ⟨List.mem_cons_of_mem _ hm, hrest⟩

/-! ## Entries put into the children -/

theorem findChild_skip (h : WfChildren p cs) (hp : cs.Perm (c :: cs')) (hn : ¬ Leads c.1 s) :
    findChild (p ++ s) p.length cs = findChild (p ++ s) p.length cs' := by
  refine findChild_congr h (h.perm hp.symm).tail ?_
  intro x hx
  rw [hp.mem_iff, List.mem_cons]
  constructor
  · rintro (rfl | hm)
    · exact absurd hx hn
    · exact hm
  · exact Or.inr

omit [DecidableEq α] in
theorem arrange_ne_nil (B : Buckets α τ) : B.arrange (c :: cs) ≠ [] := by
  intro h
  have hperm := B.perm (c :: cs)
  rw [h] at hperm
  exact List.cons_ne_nil c cs (List.nil_perm.mp hperm)

omit [DecidableEq α] in
theorem wf_single (B : Buckets α τ) {edge : List α} {n : RadixNode α τ} (hw : Wf (p ++ edge) n) (hne : edge ≠ []) :
    WfChildren p (B.arrange [(edge, n)]) :=
  (wfChildren_nil.cons (fun c hc => by cases hc) hw fun hnil => absurd hnil hne).perm (B.perm _)

theorem emplace_new (B : Buckets α τ) {edge : List α} {child : RadixNode α τ} (h : edge ∉ cs.map Prod.fst) :
    B.emplace cs edge child = (B.arrange ((edge, child) :: cs), true) := by
  rw [Buckets.emplace, if_neg h]

theorem emplace_nil (B : Buckets α τ) {edge : List α} {child : RadixNode α τ} :
    B.emplace [] edge child = (B.arrange [(edge, child)], true) :=
  emplace_new B List.not_mem_nil

theorem emplace_old (B : Buckets α τ) {edge : List α} {child : RadixNode α τ} (h : edge ∈ cs.map Prod.fst) :
    B.emplace cs edge child = (cs, false) := by
  rw [Buckets.emplace, if_pos h]

/-- What was found before is found, and under `s` the value if nothing was. -/
structure Adds (p s : List α) (value : τ) (old : List α → Option τ) (cs' : RadixChildren α τ) (inserted : Bool) :
    Prop where
  wf : WfChildren p cs'
  inner : cs' ≠ []
  finds : ∀ t, (findChild (p ++ t) p.length cs').map mapped = (old t).or (if t = s then some value else none)
  inserted_eq : inserted = (old s).isNone

/-- The new leaf, where no child shares a symbol with its key. -/
theorem adds_emplace (B : Buckets α τ) (value : τ) (h : WfChildren p cs) (hno : ∀ c ∈ cs, commonLength c.1 s = 0) :
    Adds p s value (fun t => (findChild (p ++ t) p.length cs).map mapped)
      (B.emplace cs s (node (p ++ s) value (p ++ s).length [])).1
      (B.emplace cs s (node (p ++ s) value (p ++ s).length [])).2 := by
  by_cases hs : s ∈ cs.map Prod.fst
  · rw [emplace_old B hs]
    obtain ⟨c, hc, rfl⟩ := List.mem_map.mp hs
    have hold : findChild (p ++ c.1) p.length cs = some c.2 := by
      have hw := h.below c hc
      have hnil : c.1 = [] := by
        have hzero := hno c hc
        cases he : c.1 with
        | nil => rfl
        | cons a edge => rw [he, commonLength, if_pos rfl] at hzero; cases hzero
      have hleaf := findNode_leaf (s := []) hw (h.terminal c hc hnil)
      rw [if_pos rfl, List.append_nil, List.length_append] at hleaf
      rw [findChild_leads h hc (leads_self c.1), hleaf]
    refine ⟨h, List.ne_nil_of_mem hc, ?_, ?_⟩
    · intro t
      by_cases ht : t = c.1
      · subst ht
        rw [hold, if_pos rfl]
        rfl
      · rw [if_neg ht, Option.or_none]
    · rw [hold]
      rfl
  · rw [emplace_new B hs]
    have hheads : ∀ c ∈ cs, c.1.head? ≠ s.head? := fun c hc =>
      head?_ne_of_commonLength (hno c hc) fun he => hs (List.mem_map.mpr ⟨c, hc, he⟩)
    have hnew : WfChildren p ((s, node (p ++ s) value (p ++ s).length []) :: cs) :=
      h.cons hheads (wf_leaf _ value) fun _ => rfl
    have hperm := B.perm ((s, node (p ++ s) value (p ++ s).length []) :: cs)
    -- no child leads on to a key that begins as the new one
    have hmiss : ∀ t, Leads s t → findChild (p ++ t) p.length cs = none := fun t hst =>
      findChild_none h fun c hc hl => hheads c hc (hl.head?_eq.trans hst.head?_eq.symm)
    refine ⟨hnew.perm hperm, ?_, ?_, ?_⟩
    · exact arrange_ne_nil B
    · intro t
      by_cases hst : Leads s t
      · rw [hmiss t hst, findChild_leads (hnew.perm hperm) (hperm.mem_iff.mpr (List.mem_cons_self ..)) hst]
        obtain ⟨⟨x, rfl⟩, -⟩ := hst
        rw [← List.append_assoc, ← List.length_append, findNode_leaf (wf_leaf _ value) rfl]
        by_cases hx : x = []
        · subst hx
          rw [if_pos rfl, List.append_nil, if_pos rfl]
          rfl
        · rw [if_neg hx, if_neg fun he => hx (List.self_eq_append_right.mp he.symm)]
          rfl
      · have hts : t ≠ s := by
          rintro rfl
          exact hst (leads_self t)
        rw [findChild_skip (hnew.perm hperm) hperm hst, if_neg hts, Option.or_none]
    · rw [hmiss s (leads_self s)]
      rfl

theorem commonLength_eq_zero {edge : List α} (h : edge.head? ≠ s.head?) : commonLength edge s = 0 := by
  cases edge with
  | nil => rfl
  | cons a edge =>
    cases s with
    | nil => rfl
    | cons b s =>
      rw [commonLength, if_neg]
      rintro rfl
      exact h rfl

theorem perm_filter (h : WfChildren p cs) (hc : c ∈ cs) : cs.Perm (c :: cs.filter fun x => x.1 ≠ c.1) := by
  obtain ⟨pre, post, rfl⟩ := List.append_of_mem hc
  have hne : ∀ x, x ∈ pre ∨ x ∈ post → x.1 ≠ c.1 := by
    intro x hx he
    apply h.heads_ne List.perm_middle (List.mem_append.mpr hx)
    rw [he]
  have hpre : (pre.filter fun x => x.1 ≠ c.1) = pre :=
    List.filter_eq_self.mpr fun x hx => decide_eq_true (hne x (.inl hx))
  have hpost : (post.filter fun x => x.1 ≠ c.1) = post :=
    List.filter_eq_self.mpr fun x hx => decide_eq_true (hne x (.inr hx))
  rw [List.filter_append, List.filter_cons_of_neg (by simp), hpre, hpost]
  exact List.perm_middle

/-- A node put between, where the new key parts from the key of a child. -/
theorem adds_split [Inhabited τ] (B : Buckets α τ) (value : τ) {u e' s' : List α} {found : RadixNode α τ}
    {others kids : RadixChildren α τ} {inserted : Bool} (h : WfChildren p cs)
    (hp : cs.Perm ((u ++ e', found) :: others)) (hu : u ≠ []) (he : e' ≠ []) (hpart : e'.head? ≠ s'.head?)
    (hkids : Adds (p ++ u) s' value
      (fun t => (findChild (p ++ u ++ t) (p ++ u).length (B.arrange [(e', found)])).map mapped) kids inserted) :
    Adds p (u ++ s') value (fun t => (findChild (p ++ t) p.length cs).map mapped)
      (B.arrange ((u, node (p ++ u) default (p ++ u).length kids) :: others)) true := by
  have hhead : ∀ x ∈ others, x.1.head? ≠ u.head? := by
    intro x hx heq
    apply h.heads_ne hp hx
    rw [heq, List.head?_append_of_ne_nil _ hu]
  have hothers : WfChildren p others := (h.perm hp.symm).tail
  have hnew : WfChildren p ((u, node (p ++ u) default (p ++ u).length kids) :: others) :=
    hothers.cons hhead (wf_iff.mpr ⟨⟨rfl, rfl⟩, hkids.wf⟩) fun hnil => absurd hnil hu
  have hperm := B.perm ((u, node (p ++ u) default (p ++ u).length kids) :: others)
  have hfound : Wf (p ++ u ++ e') found := by
    rw [List.append_assoc]
    exact h.below (u ++ e', found) (hp.mem_iff.mpr (List.mem_cons_self ..))
  have hone := wf_single B hfound he
  -- below `u` the old children are the one found, under what is left of its edge
  have hold : ∀ t, findChild (p ++ (u ++ t)) p.length cs =
      findChild (p ++ u ++ t) (p ++ u).length (B.arrange [(e', found)]) := by
    intro t
    have hmem := (B.perm [(e', found)]).mem_iff.mpr (List.mem_cons_self ..)
    by_cases hl : Leads e' t
    · rw [findChild_leads h (hp.mem_iff.mpr (List.mem_cons_self ..)) ((leads_append he).mpr hl),
        findChild_leads hone hmem hl, List.append_assoc, List.length_append, List.length_append, Nat.add_assoc]
    · rw [findChild_skip hone (B.perm _) hl, findChild, findChild_none h]
      intro x hx hlx
      rcases List.mem_cons.mp (hp.mem_iff.mp hx) with rfl | hx
      · exact hl ((leads_append he).mp hlx)
      · apply hhead x hx
        rw [hlx.head?_eq, List.head?_append_of_ne_nil _ hu]
  refine ⟨hnew.perm hperm, arrange_ne_nil B, ?_, ?_⟩
  · intro t
    by_cases hl : Leads u t
    · obtain ⟨⟨x, rfl⟩, -⟩ := hl
      have hinner : (node (p ++ u) default (p ++ u).length kids).children ≠ [] := hkids.inner
      rw [hold, findChild_leads (hnew.perm hperm) (hperm.mem_iff.mpr (List.mem_cons_self ..))
        (leads_of_part (List.prefix_append u x) hu), findNode_inner _ hinner, children, ← List.append_assoc,
        ← List.length_append, hkids.finds x]
      simp only [List.append_cancel_left_eq]
    · have hts : t ≠ u ++ s' := by
        rintro rfl
        exact hl (leads_of_part (List.prefix_append u s') hu)
      have hle : ¬ Leads (u ++ e') t := fun hle =>
        hl (leads_of_part ((List.prefix_append u e').trans hle.1) hu)
      rw [findChild_skip (hnew.perm hperm) hperm hl, findChild_skip h hp hle, if_neg hts, Option.or_none]
  · have hmiss : ¬ Leads e' s' := fun hl => hpart hl.head?_eq
    rw [hold, findChild_skip hone (B.perm _) hmiss, findChild]
    rfl

/-! ## insert -/

variable [Inhabited τ] (B : Buckets α τ) (value : τ)

/-- What is found from a node on; the root is no entry itself. -/
def valueAt (isRoot : Bool) (p t : List α) (n : RadixNode α τ) : Option τ :=
  (if isRoot then findChild (p ++ t) p.length n.children else findNode (p ++ t) p.length n).map mapped

omit [Inhabited τ] in
theorem valueAt_inner {n : RadixNode α τ} (isRoot : Bool) (hch : isRoot = false → n.children ≠ []) (t : List α) :
    valueAt isRoot p t n = (findChild (p ++ t) p.length n.children).map mapped := by
  rw [valueAt]
  cases isRoot with
  | true => rw [if_pos rfl]
  | false => rw [if_neg Bool.false_ne_true, findNode_inner _ (hch rfl)]

omit [Inhabited τ] in
/-- A leaf and the copy that it keeps below itself. -/
theorem valueAt_leaf (x : τ) (t : List α) :
    WfChildren p (B.arrange [([], node p x p.length [])]) ∧
    valueAt false p t (node p x p.length []) =
      (findChild (p ++ t) p.length (B.arrange [([], node p x p.length [])])).map mapped := by
  have hw : WfChildren p [([], node p x p.length [])] := by
    refine wfChildren_nil.cons (fun c hc => by cases hc) ?_ fun _ => rfl
    rw [List.append_nil]
    exact wf_leaf p x
  have hperm := B.perm [([], node p x p.length [])]
  refine ⟨hw.perm hperm, ?_⟩
  rw [valueAt, if_neg Bool.false_ne_true, findNode_leaf (wf_leaf p x) rfl]
  by_cases ht : t = []
  · subst ht
    rw [findChild_leads (hw.perm hperm) (hperm.mem_iff.mpr (List.mem_cons_self ..)) (leads_self []),
      List.length_nil, Nat.add_zero, findNode_leaf (wf_leaf p x) rfl]
  · rw [if_neg ht, findChild_skip (hw.perm hperm) hperm (mt leads_nil.mp ht), findChild]

theorem insertHere_adds {x : τ} (isRoot : Bool) (h : WfChildren p cs)
    (hno : ∀ c ∈ cs, c.1 ≠ [] → ¬ c.1 <+: s) :
    Wf p (insertHere B (p ++ s) value isRoot (node p x p.length cs)).1 ∧
      Adds p s value (fun t => valueAt isRoot p t (node p x p.length cs))
        (insertHere B (p ++ s) value isRoot (node p x p.length cs)).1.children
        (insertHere B (p ++ s) value isRoot (node p x p.length cs)).2 := by
  rw [insertHere, List.drop_left]
  cases hsh : sharing s cs with
  | none =>
    have hzero := sharing_none hsh
    by_cases hleaf : (!isRoot && cs.isEmpty) = true
    · obtain ⟨hroot, hnil⟩ := Bool.and_eq_true_iff.mp hleaf
      rw [Bool.not_eq_true'] at hroot
      rw [List.isEmpty_iff] at hnil
      subst hroot hnil
      have hv := valueAt_leaf B x (p := p)
      have hadds := adds_emplace (s := s) B value (hv []).1 (by
        intro c hc
        rcases List.mem_singleton.mp ((B.perm _).mem_iff.mp hc) with rfl
        rfl)
      simp only [← (hv _).2] at hadds
      exact ⟨wf_iff.mpr ⟨⟨rfl, rfl⟩, hadds.wf⟩, hadds⟩
    · have hinner : isRoot = false → cs ≠ [] := by
        rintro rfl rfl
        exact hleaf rfl
      simp only [hleaf, Bool.false_eq_true, if_false]
      have hadds := adds_emplace B value h hzero
      have hv := fun t => valueAt_inner (n := node p x p.length cs) (p := p) isRoot hinner t
      rw [children] at hv
      simp only [← hv] at hadds
      exact ⟨wf_iff.mpr ⟨⟨rfl, rfl⟩, hadds.wf⟩, hadds⟩
  | some r =>
    obtain ⟨edge, found, i⟩ := r
    obtain ⟨hc, hi, hlen⟩ := sharing_some hsh
    have hv := fun t => valueAt_inner (n := node p x p.length cs) (p := p) isRoot
      (fun _ => List.ne_nil_of_mem hc) t
    rw [children] at hv
    simp only [hv]
    obtain ⟨u, e', s', rfl, rfl, hu, hpart⟩ := commonLength_split edge s
    rw [← hu] at hlen
    subst hlen
    have hune : u ≠ [] := List.ne_nil_of_length_pos hi
    have he : e' ≠ [] := by
      rintro rfl
      rw [List.append_nil] at hc
      exact hno _ hc hune (List.prefix_append u s')
    have hpart := hpart.resolve_left he
    have hfound := h.below _ hc
    have hkey : found.key.take (p.length + u.length) = p ++ u := by
      rw [hfound.key_eq, ← List.append_assoc, ← List.length_append, List.take_left]
    have hperm := perm_filter h hc
    have hu' : u ∉ (cs.filter fun x => x.1 ≠ u ++ e').map Prod.fst := by
      intro hm
      obtain ⟨x, hx, rfl⟩ := List.mem_map.mp hm
      exact h.heads_ne hperm hx (List.head?_append_of_ne_nil _ hune).symm
    have hfound' : Wf (p ++ u ++ e') found := by
      rw [List.append_assoc]
      exact hfound
    have hkids := adds_emplace (s := s') B value (wf_single B hfound' he) (by
      intro c hc
      rw [List.mem_singleton.mp ((B.perm _).mem_iff.mp hc)]
      exact commonLength_eq_zero hpart)
    have hadds := adds_split B value h hperm hune he hpart hkids
    simp only [hkey, hfound.searchKey_eq, hfound'.searchKey_eq, List.take_left, List.drop_left, emplace_new B hu',
      emplace_nil]
    rw [← List.append_assoc]
    exact ⟨wf_iff.mpr ⟨⟨rfl, rfl⟩, hadds.wf⟩, hadds⟩

theorem insertChild_none (hno : ∀ c ∈ cs, c.1 ≠ [] → ¬ c.1 <+: s) :
    insertChild B (p ++ s) value p.length cs = none := by
  induction cs with
  | nil => rfl
  | cons x cs ih =>
    obtain ⟨edge, child⟩ := x
    simp only [insertChild, take_iff]
    rw [if_neg, ih fun c hc => hno c (List.mem_cons_of_mem _ hc)]
    · rfl
    · rintro ⟨hlen, hpre⟩
      exact hno (edge, child) (List.mem_cons_self ..) (List.ne_nil_of_length_pos hlen) hpre

theorem insertChild_some (h : WfChildren p cs) (hc : c ∈ cs) (hne : c.1 ≠ []) (hpre : c.1 <+: s) :
    ∃ cs' rest, insertChild B (p ++ s) value p.length cs =
        some (cs', (insertNode B (p ++ s) value false (p.length + c.1.length) c.2).2) ∧
      cs.Perm (c :: rest) ∧
      cs'.Perm ((c.1, (insertNode B (p ++ s) value false (p.length + c.1.length) c.2).1) :: rest) := by
  induction cs with
  | nil => cases hc
  | cons x cs ih =>
    obtain ⟨edge, child⟩ := x
    simp only [insertChild, take_iff]
    by_cases hx : 0 < edge.length ∧ edge <+: s
    · have heq := h.leads_unique hc (List.mem_cons_self ..) (leads_of_part hpre hne)
        (leads_of_part hx.2 (List.ne_nil_of_length_pos hx.1))
      subst heq
      rw [if_pos hx]
      exact ⟨_, cs, rfl, .refl _, .refl _⟩
    · rw [if_neg hx]
      rcases List.mem_cons.mp hc with rfl | hc
      · exact absurd ⟨List.length_pos_of_ne_nil hne, hpre⟩ hx
      · obtain ⟨cs', rest, heq, hp, hp'⟩ := ih h.tail hc
        rw [heq]
        exact ⟨_, (edge, child) :: rest, rfl, (hp.cons _).trans (.swap ..), (hp'.cons _).trans (.swap ..)⟩

omit [Inhabited τ] in
/-- The node that an insertion went into takes the place of the old one. -/
theorem adds_below {n' : RadixNode α τ} {inserted : Bool} {rest : RadixChildren α τ} (h : WfChildren p cs)
    (hp : cs.Perm (c :: rest)) (hp' : cs'.Perm ((c.1, n') :: rest)) (hne : c.1 ≠ []) (hw : Wf (p ++ c.1) n')
    (hadds : Adds (p ++ c.1) t value (fun t => valueAt false (p ++ c.1) t c.2) n'.children inserted) :
    Adds p (c.1 ++ t) value (fun t => (findChild (p ++ t) p.length cs).map mapped) cs' inserted := by
  have hheads : ∀ x ∈ rest, x.1.head? ≠ c.1.head? := fun _ hx => h.heads_ne hp hx
  have hcons : WfChildren p ((c.1, n') :: rest) :=
    (h.perm hp.symm).tail.cons hheads hw fun hnil => absurd hnil hne
  have hwf := hcons.perm hp'
  have hold : ∀ x, (findChild (p ++ (c.1 ++ x)) p.length cs).map mapped = valueAt false (p ++ c.1) x c.2 := by
    intro x
    rw [findChild_leads h (hp.mem_iff.mpr (List.mem_cons_self ..)) (leads_of_part (List.prefix_append c.1 x) hne),
      valueAt, if_neg Bool.false_ne_true, List.append_assoc, List.length_append]
  refine ⟨hwf, ?_, ?_, ?_⟩
  · intro hnil
    rw [hnil] at hp'
    exact List.cons_ne_nil _ _ (List.nil_perm.mp hp')
  · intro k
    by_cases hl : Leads c.1 k
    · obtain ⟨⟨x, rfl⟩, -⟩ := hl
      rw [findChild_leads hwf (hp'.mem_iff.mpr (List.mem_cons_self ..))
        (leads_of_part (List.prefix_append c.1 x) hne), hold, findNode_inner _ hadds.inner, ← List.append_assoc,
        ← List.length_append, hadds.finds x]
      simp only [List.append_cancel_left_eq]
    · have hk : k ≠ c.1 ++ t := by
        rintro rfl
        exact hl (leads_of_part (List.prefix_append c.1 t) hne)
      rw [findChild_skip hwf hp' hl, findChild_skip h hp hl, if_neg hk, Option.or_none]
  · rw [hold]
    exact hadds.inserted_eq

theorem insertNode_adds {n : RadixNode α τ} (h : Wf p n) (isRoot : Bool) (s : List α) :
    Wf p (insertNode B (p ++ s) value isRoot p.length n).1 ∧
      Adds p s value (fun t => valueAt isRoot p t n) (insertNode B (p ++ s) value isRoot p.length n).1.children
        (insertNode B (p ++ s) value isRoot p.length n).2 := by
  induction h generalizing isRoot s with
  | @node p x cs heads below terminal ih =>
    have hcs : WfChildren p cs := ⟨heads, below, terminal⟩
    by_cases hex : ∃ c ∈ cs, c.1 ≠ [] ∧ c.1 <+: s
    · obtain ⟨c, hc, hne, t, rfl⟩ := hex
      obtain ⟨cs', rest, heq, hp, hp'⟩ := insertChild_some B value hcs hc hne (List.prefix_append c.1 t)
      obtain ⟨hw, hadds⟩ := ih c hc false t
      rw [List.append_assoc, List.length_append] at hw hadds
      have hadds' := adds_below value hcs hp hp' hne hw hadds
      have hv := fun k => valueAt_inner (n := node p x p.length cs) (p := p) isRoot
        (fun _ => List.ne_nil_of_mem hc) k
      rw [children] at hv
      rw [insertNode, heq]
      simp only [hv]
      exact ⟨wf_iff.mpr ⟨⟨rfl, rfl⟩, hadds'.wf⟩, hadds'⟩
    · rw [insertNode, insertChild_none B value fun c hc hne hpre => hex ⟨c, hc, hne, hpre⟩]
      exact insertHere_adds B value isRoot hcs fun c hc hne hpre => hex ⟨c, hc, hne, hpre⟩

end RadixNode

/-! ## The tree over its insertions -/

namespace RadixTree

variable {α τ : Type} [DecidableEq α]

def Inv (t : RadixTree α τ) : Prop := ∀ root ∈ t.rootNode, root.Wf [] ∧ root.children ≠ []

omit [DecidableEq α] in
theorem inv_empty : (⟨none, 0⟩ : RadixTree α τ).Inv := fun root h => by cases h

theorem find_eq (t : RadixTree α τ) (root : RadixNode α τ) (h : t.rootNode = some root) (hi : t.Inv) (k : List α) :
    t.find k = root.valueAt true [] k := by
  rw [find, h, RadixNode.valueAt_inner true (fun hf => by cases hf)]
  exact congrArg (Option.map _) (RadixNode.findNode_inner 0 (hi root h).2)

variable [Inhabited τ] (B : Buckets α τ) {t : RadixTree α τ} (key : List α) (value : τ)

theorem insert_step (h : t.Inv) :
    (t.insert B key value).Inv ∧
      (∀ k, (t.insert B key value).find k = (t.find k).or (if k = key then some value else none)) ∧
      (t.insert B key value).size = t.size + if (t.find key).isNone then 1 else 0 := by
  obtain ⟨root, hroot, hwf, hold⟩ : ∃ root, t.rootNode.getD (.node [] default 0 []) = root ∧ root.Wf [] ∧
      ∀ k, t.find k = root.valueAt true [] k := by
    cases hr : t.rootNode with
    | none =>
      refine ⟨_, rfl, RadixNode.wf_leaf [] default, fun k => ?_⟩
      rw [find, hr]
      rfl
    | some root => exact ⟨root, rfl, (h root hr).1, t.find_eq root hr h⟩
  have hadds := RadixNode.insertNode_adds B value hwf true key
  rw [List.nil_append, List.length_nil] at hadds
  obtain ⟨hwf', hadds⟩ := hadds
  have hinv : (t.insert B key value).Inv := by
    intro r hr
    rw [insert, hroot] at hr
    cases hr
    exact ⟨hwf', hadds.inner⟩
  refine ⟨hinv, fun k => ?_, ?_⟩
  · have hv := RadixNode.valueAt_inner (p := []) true (fun hf => by cases hf) k
      (n := (RadixNode.insertNode B key value true 0 root).1)
    rw [find_eq _ (RadixNode.insertNode B key value true 0 root).1 (by rw [insert, hroot]) hinv, hv, hadds.finds k,
      hold k]
  · rw [insert, hroot, size, size, hadds.inserted_eq, hold key]
    by_cases hn : (root.valueAt true [] key).isNone
    · simp only [hn, if_true]
    · simp only [hn, Bool.false_eq_true, if_false, Nat.add_zero]

/-- A tree by its insertions, each with the bucket orders of its call. -/
def insertAll (entries : List (Buckets α τ × List α × τ)) : RadixTree α τ :=
  entries.foldl (fun t e => t.insert e.1 e.2.1 e.2.2) ⟨none, 0⟩

theorem insertAll_snoc (entries : List (Buckets α τ × List α × τ)) (e : Buckets α τ × List α × τ) :
    insertAll (entries ++ [e]) = (insertAll entries).insert e.1 e.2.1 e.2.2 := by
  rw [insertAll, List.foldl_append]
  rfl

theorem insertAll_inv (entries : List (Buckets α τ × List α × τ)) : (insertAll entries).Inv := by
  induction entries using List.reverseRecOn with
  | nil => exact inv_empty
  | append_singleton entries e ih =>
    rw [insertAll_snoc]
    exact (insert_step e.1 e.2.1 e.2.2 ih).1

theorem insertAll_find (entries : List (Buckets α τ × List α × τ)) (k : List α) :
    (insertAll entries).find k = (entries.find? fun e => e.2.1 = k).map fun e => e.2.2 := by
  induction entries using List.reverseRecOn with
  | nil => rfl
  | append_singleton entries e ih =>
    rw [insertAll_snoc, (insert_step e.1 e.2.1 e.2.2 (insertAll_inv entries)).2.1, ih, List.find?_append, Option.map_or]
    congr 1
    by_cases hk : k = e.2.1
    · rw [if_pos hk, List.find?_singleton, if_pos (decide_eq_true hk.symm)]
      rfl
    · rw [if_neg hk, List.find?_singleton, if_neg (by simpa using Ne.symm hk)]
      rfl

/-- Whatever order the buckets are gone through, the first value of a key is
the one found, and `size` counts the different keys. -/
theorem insertAll_first (entries : List (Buckets α τ × List α × τ)) :
    (∀ k, (insertAll entries).find k = (entries.find? fun e => e.2.1 = k).map fun e => e.2.2) ∧
      (insertAll entries).size = (entries.map fun e => e.2.1).toFinset.card := by
  refine ⟨insertAll_find entries, ?_⟩
  induction entries using List.reverseRecOn with
  | nil => rfl
  | append_singleton entries e ih =>
    rw [insertAll_snoc, (insert_step e.1 e.2.1 e.2.2 (insertAll_inv entries)).2.2, ih, insertAll_find,
      Option.isNone_map, List.map_append, List.toFinset_append, Finset.union_comm]
    have hnone : ((entries.find? fun x => x.2.1 = e.2.1).isNone = true) ↔
        e.2.1 ∉ (entries.map fun x => x.2.1).toFinset := by
      rw [Option.isNone_iff_eq_none, List.find?_eq_none, List.mem_toFinset, List.mem_map]
      simp only [decide_eq_true_eq, not_exists, not_and]
    have hunion : ([e].map fun x => x.2.1).toFinset ∪ (entries.map fun x => x.2.1).toFinset =
        Insert.insert e.2.1 (entries.map fun x => x.2.1).toFinset := by
      rw [List.map_singleton, List.toFinset_cons, List.toFinset_nil, Finset.insert_union, Finset.empty_union]
    rw [hunion]
    by_cases h : e.2.1 ∈ (entries.map fun x => x.2.1).toFinset
    · rw [if_neg fun hn => hnone.mp hn h, Finset.insert_eq_of_mem h, Nat.add_zero]
    · rw [if_pos (hnone.mpr h), Finset.card_insert_of_notMem h]

end RadixTree

end Ryklys

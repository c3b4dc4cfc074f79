import Mathlib.Data.List.Perm.Basic

/-!
# The radix tree of the routes

The vendored `radix_tree`, as far as the server uses it: `find`, `insert` and
`size`. A node holds its whole key; its children are entries of an unordered
map, each under the part of the key that it adds. The order in which such a map
is gone through is its own, and each call is given one (`Buckets`).
-/

namespace Ryklys

inductive RadixNode (α τ : Type) where
  | node (key : List α) (mapped : τ) (depth : Nat) (children : List (List α × RadixNode α τ))

abbrev RadixChildren (α τ : Type) := List (List α × RadixNode α τ)

/-- The order that a child inserted in front of the others leads to. -/
structure Buckets (α τ : Type) where
  arrange : RadixChildren α τ → RadixChildren α τ
  perm : ∀ cs, (arrange cs).Perm cs

namespace RadixNode

variable {α τ : Type}

def key : RadixNode α τ → List α
  | node key _ _ _ => key

def mapped : RadixNode α τ → τ
  | node _ mapped _ _ => mapped

def depth : RadixNode α τ → Nat
  | node _ _ depth _ => depth

def children : RadixNode α τ → RadixChildren α τ
  | node _ _ _ children => children

def isLeaf (n : RadixNode α τ) : Bool := n.children.isEmpty

/-- `get_search_key()` below a parent of the given depth. -/
def searchKey (n : RadixNode α τ) (parentDepth : Nat) : List α := (n.key.drop parentDepth).take n.depth

variable [DecidableEq α]

/-! ## find -/

mutual

def findNode (key : List α) (curKeyDepth : Nat) : RadixNode α τ → Option (RadixNode α τ)
  | node k x d cs =>
    if cs.isEmpty then (if curKeyDepth = key.length ∧ k = key then some (node k x d cs) else none)
    else findChild key curKeyDepth cs
termination_by structural n => n

def findChild (key : List α) (curKeyDepth : Nat) : RadixChildren α τ → Option (RadixNode α τ)
  | [] => none
  | (edge, child) :: cs =>
    if 0 < edge.length ∧ edge = (key.drop curKeyDepth).take edge.length then
      findNode key (curKeyDepth + edge.length) child
    else if edge.length = 0 ∧ child.isLeaf ∧ child.depth = key.length ∧ child.key = key then some child
    else findChild key curKeyDepth cs
termination_by structural cs => cs

end

/-! ## insert -/

/-- The loop that counts how far two keys go together. -/
def commonLength : List α → List α → Nat
  | a :: s, b :: t => if a = b then commonLength s t + 1 else 0
  | _, _ => 0

/-- The first child that shares a symbol with the key, and how many. -/
def sharing (subKey : List α) : RadixChildren α τ → Option (List α × RadixNode α τ × Nat)
  | [] => none
  | (edge, child) :: cs =>
    if 0 < commonLength edge subKey then some (edge, child, commonLength edge subKey) else sharing subKey cs

end RadixNode

/-- `children.insert`: an entry that is there stays. -/
def Buckets.emplace {α τ : Type} [DecidableEq α] (B : Buckets α τ) (cs : RadixChildren α τ) (edge : List α)
    (child : RadixNode α τ) : RadixChildren α τ × Bool :=
  if edge ∈ cs.map Prod.fst then (cs, false) else (B.arrange ((edge, child) :: cs), true)

namespace RadixNode

variable {α τ : Type} [DecidableEq α] [Inhabited τ] (B : Buckets α τ) (key : List α) (value : τ)

/-- What `insert` does at the node that `find_parent_node` returns. -/
def insertHere (isRoot : Bool) : RadixNode α τ → RadixNode α τ × Bool
  | node k x d cs =>
    let subKey := key.drop d
    let newNode := node key value key.length []
    match sharing subKey cs with
    | some (edge, foundNode, i) =>
      let newParentKey := foundNode.key.take (d + i)
      let below := (B.emplace [] (foundNode.searchKey newParentKey.length) foundNode).1
      let newParent := node newParentKey default newParentKey.length (B.emplace below (subKey.drop i) newNode).1
      let others := cs.filter fun c => c.1 ≠ edge
      (node k x d (B.emplace others ((foundNode.searchKey d).take i) newParent).1, true)
    | none =>
      -- a leaf keeps its value in a child of its own, under the empty key
      let split := !isRoot && cs.isEmpty
      let cs' := if split then (B.emplace cs [] (node k x d [])).1 else cs
      let r := B.emplace cs' subKey newNode
      (node k (if split then default else x) d r.1, r.2)

mutual

/-- `find_parent_node`, and the insertion at the node it comes to. -/
def insertNode (isRoot : Bool) (curKeyDepth : Nat) : RadixNode α τ → RadixNode α τ × Bool
  | node k x d cs =>
    match insertChild curKeyDepth cs with
    | some (cs', inserted) => (node k x d cs', inserted)
    | none => insertHere B key value isRoot (node k x d cs)
termination_by structural n => n

def insertChild (curKeyDepth : Nat) : RadixChildren α τ → Option (RadixChildren α τ × Bool)
  | [] => none
  | (edge, child) :: cs =>
    if 0 < edge.length ∧ edge = (key.drop curKeyDepth).take edge.length then
      let r := insertNode false (curKeyDepth + edge.length) child
      some ((edge, r.1) :: cs, r.2)
    else (insertChild curKeyDepth cs).map fun r => ((edge, child) :: r.1, r.2)
termination_by structural cs => cs

end

end RadixNode

structure RadixTree (α τ : Type) where
  rootNode : Option (RadixNode α τ) := none
  treeSize : Nat := 0

namespace RadixTree

variable {α τ : Type} [DecidableEq α]

def find (t : RadixTree α τ) (key : List α) : Option τ :=
  match t.rootNode with
  | none => none
  | some root => (RadixNode.findNode key 0 root).map RadixNode.mapped

def size (t : RadixTree α τ) : Nat := t.treeSize

def insert [Inhabited τ] (t : RadixTree α τ) (B : Buckets α τ) (key : List α) (value : τ) : RadixTree α τ :=
  let root := t.rootNode.getD (.node [] default 0 [])
  let r := RadixNode.insertNode B key value true 0 root
  ⟨some r.1, if r.2 then t.treeSize + 1 else t.treeSize⟩

end RadixTree

end Ryklys

import MeshLlm.Library.AssocMap
import MeshLlm.Library.CommonPrefix
import MeshLlm.Library.Saturating

/-! # Nodes of the unified radix tree

The node-level functions of `radix.rs`. A function that hands out a mutable
reference to a node is modelled by the tree after a write through that
reference; every write of the cache goes to the node's components only.
Tokens (`i32`) are compared and never computed with.
-/
namespace MeshLlm.Cache
open AssocMap

abbrev Token := ℤ
abbrev Namespace := String

inductive ComponentKind where
  | residentKv
  | kvRecurrent
deriving DecidableEq, Repr

/-- The payload type a component stores. -/
abbrev ComponentKind.Payload (R E : Type) : ComponentKind → Type
  | .residentKv => R
  | .kvRecurrent => E

structure ComponentEntry (T : Type) where
  value : T
  logicalBytes : ℕ
  lastUsed : ℕ
  activeRefs : ℕ
deriving DecidableEq, Repr

structure RadixComponents (R E : Type) where
  resident : Option (ComponentEntry R) := none
  recurrent : Option (ComponentEntry E) := none
deriving DecidableEq, Repr

variable {R E : Type}

namespace RadixComponents

def entry (c : RadixComponents R E) : (kind : ComponentKind) → Option (ComponentEntry (kind.Payload R E))
  | .residentKv => c.resident
  | .kvRecurrent => c.recurrent

def setEntry (c : RadixComponents R E) :
    (kind : ComponentKind) → Option (ComponentEntry (kind.Payload R E)) → RadixComponents R E
  | .residentKv, e => { c with resident := e }
  | .kvRecurrent, e => { c with recurrent := e }

/-- Neither component is stored. -/
def vacant (c : RadixComponents R E) : Bool := c.resident.isNone && c.recurrent.isNone

@[simp] theorem entry_setEntry (c : RadixComponents R E) (kind : ComponentKind)
    (e : Option (ComponentEntry (kind.Payload R E))) : (c.setEntry kind e).entry kind = e := by
  cases kind <;> rfl

theorem entry_setEntry_ne (c : RadixComponents R E) {kind kind' : ComponentKind} (h : kind' ≠ kind)
    (e : Option (ComponentEntry (kind.Payload R E))) : (c.setEntry kind e).entry kind' = c.entry kind' := by
  cases kind <;> cases kind' <;> first | rfl | exact absurd rfl h

@[simp] theorem entry_default (kind : ComponentKind) : ({} : RadixComponents R E).entry kind = none := by
  cases kind <;> rfl

theorem vacant_iff {c : RadixComponents R E} : c.vacant = true ↔ ∀ kind, c.entry kind = none := by
  constructor
  · intro h kind
    simp only [vacant,Bool.and_eq_true,Option.isNone_iff_eq_none] at h
    cases kind
    · exact h.1
    · exact h.2
  · intro h
    have hr := h .residentKv
    have he := h .kvRecurrent
    simp only [entry] at hr he
    simp [vacant,hr,he]

theorem vacant_iff_eq {c : RadixComponents R E} : c.vacant = true ↔ c = {} := by
  obtain ⟨r,e⟩ := c
  simp [vacant]

end RadixComponents

inductive RadixNode (R E : Type) where
  | mk (edge : List Token) (components : RadixComponents R E) (children : List (Token × RadixNode R E))

namespace RadixNode

def edge : RadixNode R E → List Token | .mk e _ _ => e
def components : RadixNode R E → RadixComponents R E | .mk _ c _ => c
def children : RadixNode R E → List (Token × RadixNode R E) | .mk _ _ ch => ch

@[simp] theorem edge_mk (e : List Token) (c : RadixComponents R E) (ch : List (Token × RadixNode R E)) :
    (mk e c ch).edge = e := rfl
@[simp] theorem components_mk (e : List Token) (c : RadixComponents R E) (ch : List (Token × RadixNode R E)) :
    (mk e c ch).components = c := rfl
@[simp] theorem children_mk (e : List Token) (c : RadixComponents R E) (ch : List (Token × RadixNode R E)) :
    (mk e c ch).children = ch := rfl

def new (edge : List Token) : RadixNode R E := .mk edge {} []
def root : RadixNode R E := new []

def isEmpty (node : RadixNode R E) : Bool := node.components.vacant && node.children.isEmpty

/-- The node after a write to its components through a mutable reference. -/
def mapComponents (node : RadixNode R E) (write : RadixComponents R E → RadixComponents R E) : RadixNode R E :=
  .mk node.edge (write node.components) node.children

def insertChild (node : RadixNode R E) (first : Token) (child : RadixNode R E) : RadixNode R E :=
  .mk node.edge node.components (insert node.children first child)

/-- Every node is reached through its children lists; the induction principle for proofs. -/
theorem induct {motive : RadixNode R E → Prop}
    (mk : ∀ e c ch, (∀ p ∈ ch, motive p.2) → motive (.mk e c ch)) (node : RadixNode R E) : motive node := by
  refine RadixNode.rec (motive_2 := fun ch => ∀ p ∈ ch, motive p.2) (motive_3 := fun p => motive p.2)
    mk ?_ ?_ ?_ node
  · simp
  · intro p rest hp hrest q hq
    rcases List.mem_cons.mp hq with rfl | hq
    · exact hp
    · exact hrest q hq
  · intro _ _ h
    exact h

theorem sizeOf_get_lt {node child : RadixNode R E} {first : Token} (h : get node.children first = some child) :
    sizeOf child < sizeOf node := by
  obtain ⟨e,c,ch⟩ := node
  have hmem := List.sizeOf_lt_of_mem (mem_of_get h)
  simp only [children_mk,Prod.mk.sizeOf_spec] at hmem
  simp only [mk.sizeOf_spec]
  omega

end RadixNode

def commonPrefixLen (left right : List Token) : ℕ :=
  ((left.zip right).takeWhile (fun p => p.1 = p.2)).length

theorem commonPrefixLen_eq_lcp (left right : List Token) : commonPrefixLen left right = lcp left right := by
  unfold commonPrefixLen
  induction left generalizing right with
  | nil => simp
  | cons a left ih =>
    cases right with
    | nil => simp
    | cons b right =>
      rw [List.zip_cons_cons,List.takeWhile_cons,lcp_cons,← ih]
      by_cases h : a = b <;> simp [h]

/-- The tree and the split counter after `write` to the node `tokens` names,
which is created (splitting an edge where needed) when it is missing. -/
def ensureNode (node : RadixNode R E) (tokens : List Token) (splits : ℕ)
    (write : RadixComponents R E → RadixComponents R E) : RadixNode R E × ℕ :=
  match tokens with
  | [] => (node.mapComponents write,splits)
  | first :: rest =>
    match _h : get node.children first with
    | none => (node.insertChild first ((RadixNode.new (first :: rest)).mapComponents write),splits)
    | some child =>
      let common := commonPrefixLen child.edge (first :: rest)
      if common = child.edge.length then
        let result := ensureNode child ((first :: rest).drop common) splits write
        (node.insertChild first result.1,result.2)
      else
        let existing : RadixNode R E := .mk (child.edge.drop common) child.components child.children
        let split : RadixNode R E := (RadixNode.new (child.edge.take common)).insertChild (existing.edge.headD 0) existing
        if common = (first :: rest).length then
          (node.insertChild first (split.mapComponents write),satAdd u64Max splits 1)
        else
          let newEdge := (first :: rest).drop common
          let added : RadixNode R E := (RadixNode.new newEdge).mapComponents write
          (node.insertChild first (split.insertChild (newEdge.headD 0) added),satAdd u64Max splits 1)
termination_by sizeOf node
decreasing_by exact RadixNode.sizeOf_get_lt _h

def nodeAt (node : RadixNode R E) (tokens : List Token) : Option (RadixNode R E) :=
  match tokens with
  | [] => some node
  | first :: rest =>
    match _h : get node.children first with
    | none => none
    | some child =>
      if child.edge.isPrefixOf (first :: rest) then nodeAt child ((first :: rest).drop child.edge.length) else none
termination_by sizeOf node
decreasing_by exact RadixNode.sizeOf_get_lt _h

/-- The tree after `write` to the node `tokens` names; unchanged when there is none. -/
def nodeAtMut (node : RadixNode R E) (tokens : List Token)
    (write : RadixComponents R E → RadixComponents R E) : RadixNode R E :=
  match tokens with
  | [] => node.mapComponents write
  | first :: rest =>
    match _h : get node.children first with
    | none => node
    | some child =>
      if child.edge.isPrefixOf (first :: rest) then
        node.insertChild first (nodeAtMut child ((first :: rest).drop child.edge.length) write)
      else node
termination_by sizeOf node
decreasing_by exact RadixNode.sizeOf_get_lt _h

mutual
/-- The first resident node at or below a node, children in token order. -/
def nearestResidentDescendant : RadixNode R E → List Token → Option (List Token)
  | .mk _ components children, nodePath =>
    if components.resident.isSome then some nodePath else nearestResidentBelow children nodePath
def nearestResidentBelow : List (Token × RadixNode R E) → List Token → Option (List Token)
  | [], _ => none
  | (_, child) :: rest, nodePath =>
    match nearestResidentDescendant child (nodePath ++ child.edge) with
    | some candidate => some candidate
    | none => nearestResidentBelow rest nodePath
end

/-- The loop of `resident_backing_prefix`. `consumed` counts query tokens, so
its saturating additions are exact. -/
def residentWalk (node : RadixNode R E) (remaining : List Token) (consumed : ℕ) (path : List Token)
    (best : Option (ℕ × List Token)) : Option (ℕ × List Token) :=
  match remaining with
  | [] =>
    match nearestResidentDescendant node path with
    | some stored => some (consumed,stored)
    | none => best
  | first :: rest =>
    match _h : get node.children first with
    | none =>
      if 0 < consumed then
        match nearestResidentDescendant node path with
        | some stored => some (consumed,stored)
        | none => best
      else best
    | some child =>
      let common := commonPrefixLen child.edge (first :: rest)
      if common < child.edge.length then
        if 0 < common then
          match nearestResidentDescendant child (path ++ child.edge) with
          | some stored => some (consumed + common,stored)
          | none => best
        else best
      else
        residentWalk child ((first :: rest).drop common) (consumed + common) (path ++ child.edge)
          (if child.components.resident.isSome then some (consumed + common,path ++ child.edge) else best)
termination_by sizeOf node
decreasing_by exact RadixNode.sizeOf_get_lt _h

def residentBackingPrefix (root : RadixNode R E) (tokens : List Token) : Option (ℕ × List Token) :=
  (residentWalk root tokens 0 [] (if root.components.resident.isSome then some (0,[]) else none)).filter
    (fun hit => 0 < hit.1)

def componentPresent (node : RadixNode R E) (component : ComponentKind) : Bool :=
  (node.components.entry component).isSome

/-- The loop of `longest_component_prefix`. -/
def componentWalk (component : ComponentKind) (node : RadixNode R E) (remaining : List Token) (consumed : ℕ)
    (best : Option ℕ) : Option ℕ :=
  match remaining with
  | [] => best
  | first :: rest =>
    match _h : get node.children first with
    | none => best
    | some child =>
      let common := commonPrefixLen child.edge (first :: rest)
      if common ≠ child.edge.length then best
      else
        componentWalk component child ((first :: rest).drop common) (consumed + common)
          (if componentPresent child component then some (consumed + common) else best)
termination_by sizeOf node
decreasing_by exact RadixNode.sizeOf_get_lt _h

def longestComponentPrefix (root : RadixNode R E) (tokens : List Token) (component : ComponentKind) : Option ℕ :=
  (componentWalk component root tokens 0 (if componentPresent root component then some 0 else none)).filter
    (fun matched => 0 < matched)

/-- `while` a node holds nothing and has one child, it absorbs that child. -/
def absorbUnary : RadixNode R E → RadixNode R E
  | .mk edge components [(key, .mk grandEdge grandComponents grandChildren)] =>
    if components.vacant then absorbUnary (.mk (edge ++ grandEdge) grandComponents grandChildren)
    else .mk edge components [(key,.mk grandEdge grandComponents grandChildren)]
  | node => node
termination_by node => sizeOf node.children
decreasing_by simp_wf; omega

mutual
def normalizeChildren : RadixNode R E → RadixNode R E
  | .mk edge components children => .mk edge components (normalizeEach children)
def normalizeEach : List (Token × RadixNode R E) → List (Token × RadixNode R E)
  | [] => []
  | (key, child) :: rest =>
    let child := absorbUnary (normalizeChildren child)
    if child.isEmpty then normalizeEach rest else (key,child) :: normalizeEach rest
end

def normalizeRoot (root : RadixNode R E) : RadixNode R E := normalizeChildren root

end MeshLlm.Cache

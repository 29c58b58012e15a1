import MeshLlm.Library.Saturating
import MeshLlm.Library.Tiling

/-! # How a payload is laid out

Exact state is a sequence of runs, each with one row a token in token order. The
runs are cut into windows of rows, and what follows them at a fixed size. Both
loops are followed step by step; the loop over the rows of a run is given as many
steps as there are rows, and has no result where they do not suffice.
-/
namespace MeshLlm.CacheL3

inductive GeometryKind
  | key
  | value
  | keyIndex
deriving DecidableEq, Repr

def GeometryKind.asStr : GeometryKind → String
  | .key => "k"
  | .value => "v"
  | .keyIndex => "kidx"

/-- One run of token-rows. -/
structure GeometryBlock where
  stride : ℕ
  kind : GeometryKind
  layer : ℕ
  column : ℕ
deriving DecidableEq, Repr

structure PayloadGeometry where
  blocks : List GeometryBlock
  rows : ℕ
  windowRows : ℕ
  tailBytes : ℕ
deriving DecidableEq, Repr

structure PlannedCut where
  offset : ℕ
  len : ℕ
  label : String
deriving DecidableEq, Repr

def windowLabel (block : GeometryBlock) (row : ℕ) : String :=
  block.kind.asStr ++ ":" ++ block.layer.repr ++ ":" ++ block.column.repr ++ ":" ++ row.repr

/-- Cuts of a fixed size and a last one of what remains, with the offset after them. -/
def fixedRanges (segmentBytes offset remaining : ℕ) : List (ℕ × ℕ) × ℕ :=
  if remaining = 0 then ([],offset)
  else
    let len := min (max segmentBytes 1) remaining
    let rest := fixedRanges segmentBytes (satAdd u64Max offset len) (remaining - len)
    ((offset,len) :: rest.1,rest.2)
termination_by remaining
decreasing_by omega

namespace PayloadGeometry

def totalBytes (g : PayloadGeometry) : ℕ :=
  satAdd u64Max ((g.blocks.map fun block => satMul u64Max block.stride g.rows).foldl (satAdd u64Max) 0) g.tailBytes

/-- Does the geometry describe a payload of so many bytes exactly? -/
def describes (g : PayloadGeometry) (payloadBytes : ℕ) : Bool :=
  decide (0 < g.rows) && decide (0 < g.windowRows) && !g.blocks.isEmpty && g.blocks.all (fun block => 0 < block.stride) &&
    decide (g.totalBytes = payloadBytes)

def planRows (g : PayloadGeometry) (block : GeometryBlock) : ℕ → ℕ → ℕ → Option (List PlannedCut × ℕ)
  | steps, row, offset =>
    if row < g.rows then
      match steps with
      | 0 => none
      | steps + 1 => do
        let rows := min g.windowRows (g.rows - row)
        let len := satMul u64Max rows block.stride
        let rest ← planRows g block steps (row + rows) (satAdd u64Max offset len)
        some (⟨offset,len,windowLabel block row⟩ :: rest.1,rest.2)
    else some ([],offset)

def planBlocks (g : PayloadGeometry) : List GeometryBlock → ℕ → Option (List PlannedCut × ℕ)
  | [], offset => some ([],offset)
  | block :: blocks, offset => do
    let cuts ← g.planRows block g.rows 0 offset
    let rest ← planBlocks g blocks cuts.2
    some (cuts.1 ++ rest.1,rest.2)

/-- The cuts in wire order. -/
def plan (g : PayloadGeometry) (tailSegmentBytes : ℕ) : Option (List PlannedCut) := do
  let cuts ← g.planBlocks g.blocks 0
  some (cuts.1 ++ (fixedRanges tailSegmentBytes cuts.2 g.tailBytes).1.map fun r => ⟨r.1,r.2,"tail"⟩)

/-- The bytes of the runs, without the tail. -/
def runBytes (g : PayloadGeometry) : ℕ := (g.blocks.map fun block => block.stride * g.rows).sum

/-- No computation on the sizes saturates. -/
def Exact (g : PayloadGeometry) : Prop := g.runBytes + g.tailBytes ≤ u64Max

end PayloadGeometry

end MeshLlm.CacheL3

import FlowRecovery.Graph.Basic
import FlowRecovery.Script.Table

/-! Jump chains: a label whose only use of control is an unconditional jump to another label. Edges
into such a label are led straight to the other one, and the label and its jump are deleted once
the whole graph has been scanned. -/
namespace FlowRecovery

namespace Graph

/-- A label, the jump behind it and the label that the jump goes to. -/
structure Chain where
  label : Int
  jump : Int
  target : Int
deriving DecidableEq, Repr

/-- The chain that ends in the jump `v`: one edge enters it, from a label, and one leaves it, to
another label. -/
def chain? (g : Graph) (t : Table) (v : Int) : Option Chain :=
  if (g.op? v).any (t.classify · = .jump) then
    match g.ins v, g.outs v with
    | [i], [o] =>
      if g.isLabel i.source && o.target != i.source && g.isLabel o.target then
        some ⟨i.source, v, o.target⟩
      else none
    | _, _ => none
  else none

/-- Leads every edge into `old` to `new` instead, as new edges in the same order. -/
def redirect (g : Graph) (old new : Int) : Graph :=
  let moved := g.ins old
  let g := moved.foldl (fun g e => g.link e.source new e.attrs) g
  moved.foldl (fun g e => g.removeEdge e.id) g

/-- Scans the vertices in order; the chains found are collected and their labels bypassed. -/
def collapseFrom (t : Table) : List Int → Graph → Graph × List Chain
  | [], g => (g, [])
  | v :: rest, g =>
    match g.chain? t v with
    | none => collapseFrom t rest g
    | some c =>
      let (g, chains) := collapseFrom t rest (g.redirect c.label c.target)
      (g, c :: chains)

def doomed (chains : List Chain) : List Int := chains.flatMap fun c => [c.jump, c.label]

/-- Collapses all jump chains and counts them. -/
def collapse (g : Graph) (t : Table) : Graph × Nat :=
  let (g, chains) := collapseFrom t g.live g
  ((g.deleteVertices (doomed chains)).1, chains.length)

end Graph

end FlowRecovery

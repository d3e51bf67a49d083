import FlowRecovery.Graph.Basic

/-! Where the two arms of a branch meet. Each arm is searched breadth first, never back through the
branch itself; of the vertices that both searches meet, the one with the smallest sum of distances
is the merge, and of several such the one that comes first. -/
namespace FlowRecovery

/-- How a search met a vertex: its distance from the arm's target and the edge that met it. -/
structure Hop where
  distance : Nat
  via : Edge
deriving DecidableEq, Repr

abbrev Hops := List (Int × Hop)

structure Merge where
  vertex : Int
  elseIn : Edge
  ifIn : Edge
deriving DecidableEq, Repr

namespace Graph

/-- Takes in the edges that leave a vertex at distance `d - 1`. -/
def meet (origin : Int) (d : Nat) (s : List (Int × Nat) × Hops) (e : Edge) :
    List (Int × Nat) × Hops :=
  if e.target = origin ∨ (s.2.lookup e.target).isSome then s
  else (s.1 ++ [(e.target, d)], s.2 ++ [(e.target, ⟨d, e⟩)])

/-- Expands the vertices of the queue; no vertex is queued twice, so `fuel` bounds the vertices. -/
def spread (g : Graph) (origin : Int) : (fuel : Nat) → List (Int × Nat) → Hops → Hops
  | 0, _, hops => hops
  | _, [], hops => hops
  | fuel + 1, (v, d) :: queue, hops =>
    let (queue, hops) := (g.outs v).foldl (meet origin (d + 1)) (queue, hops)
    spread g origin fuel queue hops

/-- All vertices that the arm leads to without passing the branch. -/
def armSearch (g : Graph) (origin : Int) (arm : Edge) : Hops :=
  if arm.target = origin then []
  else g.spread origin (g.size + 1) [(arm.target, 0)] [(arm.target, ⟨0, arm⟩)]

/-- The better of the merge found so far and the vertex `v`. -/
def nearer (fromElse fromIf : Hops) (best : Option (Nat × Merge)) (v : Int) :
    Option (Nat × Merge) :=
  match fromElse.lookup v, fromIf.lookup v with
  | some a, some b =>
    let score := a.distance + b.distance
    let here := some (score, ⟨v, a.via, b.via⟩)
    match best with
    | none => here
    | some (least, _) => if score < least then here else best
  | _, _ => best

/-- The nearest merge of two arms of the branch `origin`. -/
def converge (g : Graph) (origin : Int) (elseArm ifArm : Edge) : Option Merge :=
  let fromElse := g.armSearch origin elseArm
  let fromIf := g.armSearch origin ifArm
  (g.live.foldl (nearer fromElse fromIf) none).map (·.2)

end Graph

end FlowRecovery

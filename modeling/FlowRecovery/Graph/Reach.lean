import FlowRecovery.Graph.Basic

/-! Whether one vertex leads to another. The search keeps a stack of vertices to expand and the
list of the vertices it has met; no vertex is pushed twice, so as many expansions as there are
vertices are enough. -/
namespace FlowRecovery

namespace Graph

def targets (g : Graph) (id : Int) : List Int := (g.outs id).map (·.target)

/-- The targets not met before, each once. -/
def fresh (seen : List Int) : List Int → List Int
  | [] => []
  | v :: rest => if seen.contains v then fresh seen rest else v :: fresh (v :: seen) rest

def search (g : Graph) (goal : Int) : (fuel : Nat) → (stack seen : List Int) → Bool
  | 0, _, _ => false
  | _, [], _ => false
  | fuel + 1, v :: stack, seen =>
    let next := g.targets v
    if next.contains goal then true
    else
      let new := fresh seen next
      search g goal fuel (new.reverse ++ stack) (new ++ seen)

def reachable (g : Graph) (source target : Int) : Bool :=
  source == target || g.search target (g.size + 1) [source] [source]

/-- There is an edge from `u` to `v`. -/
def Step (g : Graph) (u v : Int) : Prop := ∃ e ∈ g.edges, e.source = u ∧ e.target = v

theorem mem_targets {g : Graph} {u v : Int} : v ∈ g.targets u ↔ g.Step u v := by
  simp [targets, outs, Step, and_assoc]

end Graph

end FlowRecovery

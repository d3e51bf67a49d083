import FlowRecovery.Flow.Build
import FlowRecovery.Proofs.Flow.Successor
import FlowRecovery.Proofs.Graph.Reachable

/-! What the depth-first walk has done at any moment. The edges drawn from a position, followed by the
successors that wait in its frames, are its successors at the level of the first edge into it. When
the stack is empty nothing waits, so the walk has drawn the successors of exactly the positions that
control can come to. A step that enters a position pays for the frame with the position's share of
the budget, so the budget lasts until the stack is empty. -/

namespace FlowRecovery

open Relation

/-- The flow level at which control first came to `p`: zero at the start, and elsewhere that of the
lowest-numbered edge into `p`. -/
def Graph.EntryLevel (g : Graph) (p : Int) (level : Int64) : Prop :=
  p = 0 ∧ level = 0 ∨
    p ≠ 0 ∧ ∃ e ∈ g.ins p, (∀ f ∈ g.ins p, e.id ≤ f.id) ∧ e.attrs.level = level

/-- The edges that leave `p`, as successors. -/
def Graph.drawn (g : Graph) (p : Int) : List Successor :=
  (g.outs p).map fun e => ⟨e.attrs.level, e.target⟩

namespace Graph

variable {g : Graph} {s t p : Int} {a : Attrs}

theorem drawn_link (hs : s ∈ g.live) (ht : t ∈ g.live) :
    (g.link s t a).drawn p = g.drawn p ++ if s = p then [⟨a.level, t⟩] else [] := by
  unfold drawn
  rw [outs_link hs ht, List.map_append]
  by_cases h : s = p <;> simp [h]

/-- Edges drawn later do not change the level at which a position was entered. -/
theorem EntryLevel.link (hg : g.WellFormed) (hs : s ∈ g.live) (ht : t ∈ g.live) {level : Int64}
    (h : g.EntryLevel p level) : (g.link s t a).EntryLevel p level := by
  refine h.imp_right ?_
  rintro ⟨hp, e, he, hleast, hlevel⟩
  refine ⟨hp, e, ?_, ?_, hlevel⟩
  · rw [ins_link hs ht]
    exact List.mem_append_left _ he
  · intro f hf
    rw [ins_link hs ht] at hf
    rcases List.mem_append.mp hf with hf | hf
    · exact hleast f hf
    · split_ifs at hf
      · obtain rfl := List.mem_singleton.mp hf
        exact Nat.le_of_lt (hg.ids_below e (mem_ins.mp he).1)
      · simp at hf

/-- The first edge into a position sets its level. -/
theorem entryLevel_link_first (hs : s ∈ g.live) (ht : t ∈ g.live) (h0 : t ≠ 0)
    (hins : g.ins t = []) : (g.link s t a).EntryLevel t a.level := by
  have hone : (g.link s t a).ins t = [⟨g.nextEdge, s, t, a⟩] := by
    rw [ins_link hs ht, hins, if_pos rfl, List.nil_append]
  refine Or.inr ⟨h0, ⟨g.nextEdge, s, t, a⟩, ?_, ?_, rfl⟩
  · rw [hone]
    exact List.mem_singleton_self _
  · intro f hf
    rw [hone] at hf
    exact Nat.le_of_eq (congrArg Edge.id (List.mem_singleton.mp hf)).symm

theorem EntryLevel.unique (hg : g.WellFormed) {k l : Int64} (hk : g.EntryLevel p k)
    (hl : g.EntryLevel p l) : k = l := by
  rcases hk with ⟨hp, rfl⟩ | ⟨hp, e, he, hle, rfl⟩
  · rcases hl with ⟨-, rfl⟩ | ⟨hp', -⟩
    · rfl
    · exact absurd hp hp'
  · rcases hl with ⟨hp', -⟩ | ⟨-, f, hf, hlf, rfl⟩
    · exact absurd hp' hp
    · have hid : e.id = f.id := Nat.le_antisymm (hle f hf) (hlf e he)
      rw [hg.eq_of_id_eq (mem_ins.mp he).1 (mem_ins.mp hf).1 hid]

end Graph

/-- The graph has the operations of `r` and a vertex for each. -/
structure Graph.Spans (g : Graph) (r : Routine) : Prop where
  ops : g.ops = r.ops
  live : g.live = (List.range r.ops.length).map Int.ofNat

namespace Graph.Spans

variable {g : Graph} {r : Routine}

theorem mem_live (h : g.Spans r) {p : Int} : p ∈ g.live ↔ (r.opAt? p).isSome := by
  rw [h.live]
  unfold Routine.opAt?
  constructor
  · intro hp
    obtain ⟨n, hn, rfl⟩ := List.mem_map.mp hp
    simpa using List.mem_range.mp hn
  · intro hp
    split_ifs at hp with h0
    · obtain ⟨op, hop⟩ := Option.isSome_iff_exists.mp hp
      obtain ⟨hlt, -⟩ := List.getElem?_eq_some_iff.mp hop
      exact List.mem_map.mpr ⟨p.toNat, List.mem_range.mpr hlt, Int.toNat_of_nonneg h0⟩
    · simp at hp

theorem op? (h : g.Spans r) (p : Int) : g.op? p = r.opAt? p := by
  unfold Graph.op?
  by_cases hp : p ∈ g.live
  · obtain ⟨op, hop⟩ := Option.isSome_iff_exists.mp (h.mem_live.mp hp)
    rw [if_pos (has_iff.mpr hp), h.ops, hop, (Routine.opAt?_eq_some hop).2]
  · rw [if_neg (fun hh => hp (has_iff.mp hh))]
    exact (Option.not_isSome_iff_eq_none.mp fun hs => hp (h.mem_live.mpr hs)).symm

theorem link (h : g.Spans r) (s t : Int) (a : Attrs) : (g.link s t a).Spans r :=
  ⟨by rw [ops_link, h.ops], by rw [live_link, h.live]⟩

theorem ofOps (r : Routine) : (Graph.ofOps r.ops).Spans r := ⟨rfl, rfl⟩

end Graph.Spans

namespace Walk

variable {r : Routine} {labels : LabelIndex} {t : Table}

/-! ### One step -/

/-- The graph with the edge from `p` to its successor `s`. -/
def drawTo (w : Walk) (p : Int) (s : Successor) : Graph :=
  w.graph.link p s.pos { level := s.level, loop := w.graph.reachable s.pos p }

/-- What a step can do: nothing, leave a frame, draw an edge to a position entered before, or draw
one to a new position and enter it. -/
inductive Next (r : Routine) (labels : LabelIndex) (t : Table) (w : Walk) : Walk → Prop
  | rest (hstack : w.stack = []) : Next r labels t w w
  | leave {p : Int} {below : List Frame} (hstack : w.stack = ⟨p, []⟩ :: below) :
      Next r labels t w { w with stack := below }
  | draw {p : Int} {s : Successor} {pending : List Successor} {below : List Frame}
      (hstack : w.stack = ⟨p, s :: pending⟩ :: below) (hp : p ∈ w.graph.live)
      (hs : s.pos ∈ w.graph.live) (hseen : s.pos ∈ w.visited) :
      Next r labels t w { w with graph := w.drawTo p s, stack := ⟨p, pending⟩ :: below }
  | enter {p : Int} {s : Successor} {pending : List Successor} {below : List Frame} {frame : Frame}
      (hstack : w.stack = ⟨p, s :: pending⟩ :: below) (hp : p ∈ w.graph.live)
      (hs : s.pos ∈ w.graph.live) (hnew : s.pos ∉ w.visited)
      (hframe : enter r labels t s.pos s.level = .ok frame) :
      Next r labels t w
        { graph := w.drawTo p s, visited := s.pos :: w.visited
          stack := frame :: ⟨p, pending⟩ :: below }

theorem next_of_step {w w' : Walk} (h : w.step r labels t = .ok w') : Next r labels t w w' := by
  unfold step at h
  split at h
  · next hstack =>
    obtain rfl := Except.ok.inj h
    exact .rest hstack
  · next hstack =>
    obtain rfl := Except.ok.inj h
    exact .leave hstack
  · next p s pending below hstack =>
    cases hadd : w.graph.addEdge p s.pos
        { level := s.level, loop := w.graph.reachable s.pos p } with
    | error cause => simp [hadd] at h
    | ok drawn =>
      obtain ⟨hp, hs, hgraph⟩ := Graph.addEdge_eq_ok hadd
      simp only [hadd, hgraph] at h
      split_ifs at h with hseen
      · obtain rfl := Except.ok.inj h
        exact .draw hstack hp hs (List.contains_iff_mem.mp hseen)
      · cases hframe : enter r labels t s.pos s.level with
        | error f => simp [hframe, bind, Except.bind] at h
        | ok frame =>
          simp only [hframe, bind, Except.bind] at h
          obtain rfl := Except.ok.inj h
          exact .enter hstack hp hs (fun hmem => hseen (List.contains_iff_mem.mpr hmem)) hframe

/-- What every step keeps, a run keeps. -/
theorem run_induction {P : Walk → Prop} (hnext : ∀ w w', P w → Next r labels t w w' → P w')
    {fuel : Nat} {w w' : Walk} (hw : P w) (h : run r labels t fuel w = .ok w') : P w' := by
  induction fuel generalizing w with
  | zero =>
    obtain rfl := Except.ok.inj h
    exact hw
  | succ fuel ih =>
    unfold run at h
    split_ifs at h
    · obtain rfl := Except.ok.inj h
      exact hw
    · cases hstep : w.step r labels t with
      | error f => simp [hstep, bind, Except.bind] at h
      | ok w₁ =>
        simp only [hstep, bind, Except.bind] at h
        exact ih (hnext w w₁ hw (next_of_step hstep)) h

/-- What the walk starts with and every step keeps, the whole walk keeps. -/
theorem ofRoutine_induction {P : Walk → Prop}
    (hstart : ∀ frame, enter r labels t 0 0 = .ok frame →
      P { graph := .ofOps r.ops, visited := [0], stack := [frame] })
    (hnext : ∀ w w', P w → Next r labels t w w' → P w') {w : Walk}
    (h : ofRoutine r labels t = .ok w) : P w := by
  cases hframe : enter r labels t 0 0 with
  | error f => simp [ofRoutine, hframe, bind, Except.bind] at h
  | ok frame =>
    simp only [ofRoutine, hframe, bind, Except.bind] at h
    exact run_induction hnext (hstart frame hframe) h

theorem enter_eq_ok {p : Int} {level : Int64} {frame : Frame}
    (h : enter r labels t p level = .ok frame) (hp : (r.opAt? p).isSome) :
    frame.pos = p ∧ r.successors? labels t p level = some (.ok frame.pending) := by
  obtain ⟨op, hop⟩ := Option.isSome_iff_exists.mp hp
  unfold enter at h
  split at h
  · next hs =>
    obtain rfl := Except.ok.inj h
    exact ⟨rfl, hs⟩
  · simp at h
  · next hs => simp [Routine.successors?, hop] at hs

/-! ### The invariant -/

/-- The successors of `p` that wait in the frames of `stack`. -/
def waiting (stack : List Frame) (p : Int) : List Successor :=
  stack.flatMap fun f => if f.pos = p then f.pending else []

theorem waiting_cons (f : Frame) (stack : List Frame) (p : Int) :
    waiting (f :: stack) p = (if f.pos = p then f.pending else []) ++ waiting stack p :=
  List.flatMap_cons

theorem waiting_eq_nil {stack : List Frame} {p : Int} (h : ∀ f ∈ stack, f.pos ≠ p) :
    waiting stack p = [] := by
  refine List.flatMap_eq_nil_iff.mpr ?_
  intro f hf
  exact if_neg (h f hf)

structure Inv (r : Routine) (labels : LabelIndex) (t : Table) (w : Walk) : Prop where
  spans : w.graph.Spans r
  wellFormed : w.graph.WellFormed
  ids : w.graph.edges.map (·.id) = List.range w.graph.nextEdge
  start : 0 ∈ w.visited
  nodup : w.visited.Nodup
  reached : ∀ p ∈ w.visited, r.Reached labels t p
  visited_live : ∀ p ∈ w.visited, p ∈ w.graph.live
  source_visited : ∀ e ∈ w.graph.edges, e.source ∈ w.visited
  target_visited : ∀ e ∈ w.graph.edges, e.target ∈ w.visited
  frame_visited : ∀ f ∈ w.stack, f.pos ∈ w.visited
  frame_short : ∀ f ∈ w.stack, f.pending.length ≤ 2
  progress : ∀ p ∈ w.visited, ∃ level, w.graph.EntryLevel p level ∧
    r.successors? labels t p level = some (.ok (w.graph.drawn p ++ waiting w.stack p))

namespace Inv

variable {w : Walk}

theorem drawn_eq_nil (h : Inv r labels t w) {p : Int} (hp : p ∉ w.visited) :
    w.graph.drawn p = [] := by
  have houts : w.graph.outs p = [] := by
    refine List.filter_eq_nil_iff.mpr ?_
    intro e he hsource
    exact hp ((of_decide_eq_true hsource) ▸ h.source_visited e he)
  rw [Graph.drawn, houts, List.map_nil]

theorem ins_eq_nil (h : Inv r labels t w) {p : Int} (hp : p ∉ w.visited) :
    w.graph.ins p = [] := by
  refine List.filter_eq_nil_iff.mpr ?_
  intro e he htarget
  exact hp ((of_decide_eq_true htarget) ▸ h.target_visited e he)

section Top

variable {p : Int} {s : Successor} {pending : List Successor} {below : List Frame}

/-- The top frame's next successor is a successor of its position. -/
theorem leads_top (h : Inv r labels t w) (hstack : w.stack = ⟨p, s :: pending⟩ :: below) :
    r.Leads labels t p s.pos := by
  obtain ⟨level, -, hss⟩ := h.progress p
    (h.frame_visited ⟨p, s :: pending⟩ (hstack ▸ List.mem_cons_self ..))
  refine ⟨level, _, hss, s, ?_, rfl⟩
  rw [hstack, waiting_cons, if_pos rfl]
  exact List.mem_append_right _ (List.mem_append_left _ (List.mem_cons_self ..))

/-- Drawing the next edge of the top frame only moves a successor from waiting to drawn. -/
theorem drawn_waiting_drawTo (hstack : w.stack = ⟨p, s :: pending⟩ :: below)
    (hp : p ∈ w.graph.live) (hs : s.pos ∈ w.graph.live) (q : Int) :
    (w.drawTo p s).drawn q ++ waiting (⟨p, pending⟩ :: below) q =
      w.graph.drawn q ++ waiting w.stack q := by
  rw [drawTo, Graph.drawn_link hp hs, hstack, waiting_cons, waiting_cons]
  by_cases hq : p = q <;> simp [hq]

theorem top_visited (h : Inv r labels t w) (hstack : w.stack = ⟨p, s :: pending⟩ :: below) :
    p ∈ w.visited :=
  h.frame_visited ⟨p, s :: pending⟩ (hstack ▸ List.mem_cons_self ..)

/-- What is left on the stack when the top frame's next successor has been taken. -/
theorem rest_visited (h : Inv r labels t w) (hstack : w.stack = ⟨p, s :: pending⟩ :: below) :
    ∀ f ∈ (⟨p, pending⟩ :: below : List Frame), f.pos ∈ w.visited := by
  intro f hf
  rcases List.mem_cons.mp hf with rfl | hf
  · exact h.top_visited hstack
  · exact h.frame_visited f (hstack ▸ List.mem_cons_of_mem _ hf)

theorem rest_short (h : Inv r labels t w) (hstack : w.stack = ⟨p, s :: pending⟩ :: below) :
    ∀ f ∈ (⟨p, pending⟩ :: below : List Frame), f.pending.length ≤ 2 := by
  intro f hf
  rcases List.mem_cons.mp hf with rfl | hf
  · have hlen := h.frame_short ⟨p, s :: pending⟩ (hstack ▸ List.mem_cons_self ..)
    exact Nat.le_of_succ_le hlen
  · exact h.frame_short f (hstack ▸ List.mem_cons_of_mem _ hf)

theorem ids_drawTo (h : Inv r labels t w) (hp : p ∈ w.graph.live) (hs : s.pos ∈ w.graph.live) :
    (w.drawTo p s).edges.map (·.id) = List.range (w.drawTo p s).nextEdge := by
  rw [drawTo, Graph.edges_link hp hs, Graph.nextEdge_link hp hs, List.range_succ, List.map_append,
    h.ids]
  rfl

theorem mem_edges_drawTo (hp : p ∈ w.graph.live) (hs : s.pos ∈ w.graph.live) {e : Edge}
    (he : e ∈ (w.drawTo p s).edges) : e ∈ w.graph.edges ∨ e.source = p ∧ e.target = s.pos := by
  rw [drawTo, Graph.edges_link hp hs] at he
  rcases List.mem_append.mp he with he | he
  · exact Or.inl he
  · obtain rfl := List.mem_singleton.mp he
    exact Or.inr ⟨rfl, rfl⟩

end Top

theorem leave (h : Inv r labels t w) {p : Int} {below : List Frame}
    (hstack : w.stack = ⟨p, []⟩ :: below) : Inv r labels t { w with stack := below } where
  spans := h.spans
  wellFormed := h.wellFormed
  ids := h.ids
  start := h.start
  nodup := h.nodup
  reached := h.reached
  visited_live := h.visited_live
  source_visited := h.source_visited
  target_visited := h.target_visited
  frame_visited f hf := h.frame_visited f (hstack ▸ List.mem_cons_of_mem _ hf)
  frame_short f hf := h.frame_short f (hstack ▸ List.mem_cons_of_mem _ hf)
  progress q hq := by
    obtain ⟨level, hlevel, hss⟩ := h.progress q hq
    refine ⟨level, hlevel, ?_⟩
    rw [hstack, waiting_cons, ite_self, List.nil_append] at hss
    exact hss

theorem draw (h : Inv r labels t w) {p : Int} {s : Successor} {pending : List Successor}
    {below : List Frame} (hstack : w.stack = ⟨p, s :: pending⟩ :: below) (hp : p ∈ w.graph.live)
    (hs : s.pos ∈ w.graph.live) (hseen : s.pos ∈ w.visited) :
    Inv r labels t { w with graph := w.drawTo p s, stack := ⟨p, pending⟩ :: below } where
  spans := h.spans.link _ _ _
  wellFormed := h.wellFormed.link _ _ _
  ids := h.ids_drawTo hp hs
  start := h.start
  nodup := h.nodup
  reached := h.reached
  visited_live q hq := by
    rw [drawTo, Graph.live_link]
    exact h.visited_live q hq
  source_visited e he := by
    rcases mem_edges_drawTo hp hs he with he | ⟨hsource, -⟩
    · exact h.source_visited e he
    · rw [hsource]
      exact h.top_visited hstack
  target_visited e he := by
    rcases mem_edges_drawTo hp hs he with he | ⟨-, htarget⟩
    · exact h.target_visited e he
    · exact htarget ▸ hseen
  frame_visited := h.rest_visited hstack
  frame_short := h.rest_short hstack
  progress q hq := by
    obtain ⟨level, hlevel, hss⟩ := h.progress q hq
    refine ⟨level, hlevel.link h.wellFormed hp hs, ?_⟩
    rw [drawn_waiting_drawTo hstack hp hs]
    exact hss

section Enter

variable {p : Int} {s : Successor} {pending : List Successor} {below : List Frame} {frame : Frame}

/-- A new position has no edge yet in either direction, so its level is that of the new edge and its
frame holds all its successors. -/
theorem progress_new (h : Inv r labels t w) (hstack : w.stack = ⟨p, s :: pending⟩ :: below)
    (hp : p ∈ w.graph.live) (hs : s.pos ∈ w.graph.live) (hnew : s.pos ∉ w.visited)
    (hpos : frame.pos = s.pos)
    (hsucc : r.successors? labels t s.pos s.level = some (.ok frame.pending)) :
    ∃ level, (w.drawTo p s).EntryLevel s.pos level ∧
      r.successors? labels t s.pos level = some (.ok ((w.drawTo p s).drawn s.pos ++
        waiting (frame :: ⟨p, pending⟩ :: below) s.pos)) := by
  have h0 : s.pos ≠ 0 := fun heq => hnew (heq ▸ h.start)
  have hps : p ≠ s.pos := fun heq => hnew (heq ▸ h.top_visited hstack)
  refine ⟨s.level, Graph.entryLevel_link_first hp hs h0 (h.ins_eq_nil hnew), ?_⟩
  have hwait : waiting (⟨p, pending⟩ :: below) s.pos = [] :=
    waiting_eq_nil fun f hf heq => hnew (heq ▸ h.rest_visited hstack f hf)
  have hdrawn : (w.drawTo p s).drawn s.pos = [] := by
    rw [drawTo, Graph.drawn_link hp hs, h.drawn_eq_nil hnew, if_neg hps, List.nil_append]
  rw [waiting_cons, if_pos hpos, hwait, hdrawn, List.append_nil, List.nil_append]
  exact hsucc

theorem enter (h : Inv r labels t w) (hstack : w.stack = ⟨p, s :: pending⟩ :: below)
    (hp : p ∈ w.graph.live) (hs : s.pos ∈ w.graph.live) (hnew : s.pos ∉ w.visited)
    (hframe : Walk.enter r labels t s.pos s.level = .ok frame) :
    Inv r labels t
      { graph := w.drawTo p s, visited := s.pos :: w.visited
        stack := frame :: ⟨p, pending⟩ :: below } := by
  obtain ⟨hpos, hsucc⟩ := enter_eq_ok hframe (h.spans.mem_live.mp hs)
  have hpv : p ∈ w.visited := h.top_visited hstack
  refine ⟨h.spans.link _ _ _, h.wellFormed.link _ _ _, h.ids_drawTo hp hs, ?_, ?_, ?_, ?_, ?_, ?_,
    ?_, ?_, ?_⟩
  · exact List.mem_cons_of_mem _ h.start
  · exact List.nodup_cons.mpr ⟨hnew, h.nodup⟩
  · intro q hq
    rcases List.mem_cons.mp hq with rfl | hq
    · exact (h.reached p hpv).next (h.leads_top hstack)
    · exact h.reached q hq
  · intro q hq
    rw [drawTo, Graph.live_link]
    rcases List.mem_cons.mp hq with rfl | hq
    · exact hs
    · exact h.visited_live q hq
  · intro e he
    rcases mem_edges_drawTo hp hs he with he | ⟨hsource, -⟩
    · exact List.mem_cons_of_mem _ (h.source_visited e he)
    · exact List.mem_cons_of_mem _ (hsource ▸ hpv)
  · intro e he
    rcases mem_edges_drawTo hp hs he with he | ⟨-, htarget⟩
    · exact List.mem_cons_of_mem _ (h.target_visited e he)
    · exact htarget ▸ List.mem_cons_self ..
  · intro f hf
    rcases List.mem_cons.mp hf with rfl | hf
    · exact hpos ▸ List.mem_cons_self ..
    · exact List.mem_cons_of_mem _ (h.rest_visited hstack f hf)
  · intro f hf
    rcases List.mem_cons.mp hf with rfl | hf
    · obtain ⟨op, -, hok⟩ := Routine.successors?_eq_ok hsucc
      exact Routine.length_successorsOf_le hok
    · exact h.rest_short hstack f hf
  · intro q hq
    by_cases hqs : q = s.pos
    · rw [hqs]
      exact h.progress_new hstack hp hs hnew hpos hsucc
    · have hqv : q ∈ w.visited := (List.mem_cons.mp hq).resolve_left hqs
      obtain ⟨level, hlevel, hss⟩ := h.progress q hqv
      refine ⟨level, hlevel.link h.wellFormed hp hs, ?_⟩
      rw [waiting_cons, if_neg (fun heq => hqs (heq.symm.trans hpos)), List.nil_append,
        drawn_waiting_drawTo hstack hp hs]
      exact hss

end Enter

theorem next (h : Inv r labels t w) {w' : Walk} (hnext : Next r labels t w w') :
    Inv r labels t w' := by
  cases hnext with
  | rest => exact h
  | leave hstack => exact h.leave hstack
  | draw hstack hp hs hseen => exact h.draw hstack hp hs hseen
  | enter hstack hp hs hnew hframe => exact h.enter hstack hp hs hnew hframe

theorem start_of_enter {frame : Frame} (hpos : (r.opAt? 0).isSome)
    (h : Walk.enter r labels t 0 0 = .ok frame) :
    Inv r labels t { graph := .ofOps r.ops, visited := [0], stack := [frame] } := by
  obtain ⟨hframe, hsucc⟩ := enter_eq_ok h hpos
  have hlive : (0 : Int) ∈ (Graph.ofOps r.ops).live := (Graph.Spans.ofOps r).mem_live.mpr hpos
  refine ⟨.ofOps r, .ofOps r.ops, rfl, List.mem_singleton_self 0, List.nodup_singleton 0, ?_, ?_,
    ?_, ?_, ?_, ?_, ?_⟩
  · intro p hp
    rw [List.mem_singleton.mp hp]
    exact ⟨hpos, ReflTransGen.refl⟩
  · intro p hp
    rw [List.mem_singleton.mp hp]
    exact hlive
  · simp [Graph.ofOps]
  · simp [Graph.ofOps]
  · intro f hf
    rw [List.mem_singleton.mp hf, hframe]
    exact List.mem_singleton_self 0
  · intro f hf
    obtain ⟨op, -, hok⟩ := Routine.successors?_eq_ok hsucc
    rw [List.mem_singleton.mp hf]
    exact Routine.length_successorsOf_le hok
  · intro p hp
    obtain rfl := List.mem_singleton.mp hp
    refine ⟨0, Or.inl ⟨rfl, rfl⟩, ?_⟩
    rw [waiting_cons, if_pos hframe, waiting, List.flatMap_nil, List.append_nil]
    exact hsucc

end Inv

/-! ### The budget -/

/-- The steps that are left: one for each waiting successor and each frame, and three for each
position that has not been entered. -/
def remaining (r : Routine) (w : Walk) : Nat :=
  (w.stack.flatMap Frame.pending).length + w.stack.length +
    3 * (r.ops.length - w.visited.length)

theorem Inv.length_visited_le {w : Walk} (h : Inv r labels t w) :
    w.visited.length ≤ r.ops.length := by
  have hsub : w.visited.length ≤ w.graph.live.length :=
    (h.nodup.subperm fun p hp => h.visited_live p hp).length_le
  rwa [h.spans.live, List.length_map, List.length_range] at hsub

theorem remaining_next {w w' : Walk} (h : Inv r labels t w) (hnext : Next r labels t w w')
    (hne : w.stack ≠ []) : remaining r w' < remaining r w := by
  have hafter := (h.next hnext).length_visited_le
  have hshort := (h.next hnext).frame_short
  cases hnext with
  | rest hstack => exact absurd hstack hne
  | leave hstack =>
    simp only [remaining, hstack, List.flatMap_cons, List.length_append, List.length_cons,
      List.length_nil]
    omega
  | draw hstack hp hs hseen =>
    simp only [remaining, hstack, List.flatMap_cons, List.length_append, List.length_cons]
    omega
  | @enter p s pending below frame hstack hp hs hnew hframe =>
    have hlen : frame.pending.length ≤ 2 := hshort frame (List.mem_cons_self ..)
    simp only [remaining, hstack, List.flatMap_cons, List.length_append, List.length_cons]
      at hafter ⊢
    omega

theorem stack_eq_nil_of_run {fuel : Nat} {w w' : Walk} (hw : Inv r labels t w)
    (hfuel : remaining r w ≤ fuel) (h : run r labels t fuel w = .ok w') : w'.stack = [] := by
  induction fuel generalizing w with
  | zero =>
    obtain rfl := Except.ok.inj h
    cases hstack : w.stack with
    | nil => rfl
    | cons f below => simp [remaining, hstack] at hfuel
  | succ fuel ih =>
    unfold run at h
    split_ifs at h with hempty
    · obtain rfl := Except.ok.inj h
      exact List.isEmpty_iff.mp hempty
    · cases hstep : w.step r labels t with
      | error f => simp [hstep, bind, Except.bind] at h
      | ok w₁ =>
        simp only [hstep, bind, Except.bind] at h
        have hnext := next_of_step hstep
        have hless := remaining_next hw hnext fun hnil => hempty (List.isEmpty_iff.mpr hnil)
        exact ih (hw.next hnext) (by omega) h

end Walk

end FlowRecovery

import FlowRecovery.Picker
import Mathlib.Data.List.Basic
import Mathlib.Tactic.SplitIfs

/-! The window of a picker. The cursor is never above the window: moving up takes the window along, and so
does moving down past its last row. A resize moves neither, so a window that loses rows may end above the
cursor. A picker shows its cursor all the way through a sequence of messages exactly if every resize leaves
the row of the cursor in the window; once it is lost, the next move down brings it back. -/

namespace FlowRecovery.Picker

variable {p : Picker} {routines : List RoutineResult}

/-- The picker after a sequence of messages. -/
def after (p : Picker) (ms : List Message) : Picker := ms.foldl (fun p m => (p.update m).1) p

@[simp] theorem after_nil (p : Picker) : p.after [] = p := rfl

@[simp] theorem after_cons (p : Picker) (m : Message) (ms : List Message) :
    p.after (m :: ms) = (p.update m).1.after ms := rfl

theorem after_concat (p : Picker) (ms : List Message) (m : Message) :
    p.after (ms ++ [m]) = ((p.after ms).update m).1 := by
  simp [after]

theorem after_take_succ {ms : List Message} {k : Nat} {m : Message} (h : ms[k]? = some m) :
    p.after (ms.take (k + 1)) = ((p.after (ms.take k)).update m).1 := by
  rw [List.take_add_one, h, Option.toList_some, after_concat]

/-! ### The rows of a screen -/

/-- Screens are at most `2 ^ 31` lines high. -/
def Message.Modest : Message → Prop
  | .key _ => True
  | .resize lines => 0 ≤ lines.toInt ∧ lines.toInt ≤ 2147483648

theorem five_le_rowsOf (lines : Int64) : 5 ≤ rowsOf lines := by
  unfold rowsOf
  split_ifs with hfew
  · exact Nat.le_refl 5
  · have hmany : (5 : Int64).toInt ≤ (lines - 6).toInt := by
      rw [← Int64.le_iff_toInt_le]
      exact Int64.not_lt.mp hfew
    have hfive : (5 : Int64).toInt = 5 := rfl
    omega

/-- No screen of that height is too high for its rows to be counted. -/
theorem rowsOf_eq {lines : Int64} (h : (Message.resize lines).Modest) :
    (rowsOf lines : Int) = max 5 (lines.toInt - 6) := by
  obtain ⟨hlow, hhigh⟩ := h
  have hsub : (lines - 6).toInt = lines.toInt - 6 := by
    rw [Int64.toInt_sub, show (6 : Int64).toInt = 6 from rfl]
    refine Int.bmod_eq_of_le ?_ ?_ <;> omega
  have hfive : (5 : Int64).toInt = 5 := rfl
  unfold rowsOf
  split_ifs with hfew
  · rw [Int64.lt_iff_toInt_lt, hsub, hfive] at hfew
    omega
  · rw [Int64.lt_iff_toInt_lt, hsub, hfive] at hfew
    rw [hsub]
    omega

/-! ### The window follows the cursor -/

/-- The cursor is at a routine, if there is one, and not above the window, which has rows. -/
structure Steady (p : Picker) : Prop where
  offset_le : p.offset ≤ p.cursor
  cursor_lt : p.cursor < max 1 p.routines.length
  height_pos : 5 ≤ p.height

/-- The row of the cursor is in the window. -/
def Shows (p : Picker) : Prop := p.offset ≤ p.cursor ∧ p.cursor < p.offset + p.height

instance (p : Picker) : Decidable p.Shows := inferInstanceAs (Decidable (_ ∧ _))

theorem steady_ofRoutines (routines : List RoutineResult) : (ofRoutines routines).Steady where
  offset_le := Nat.le_refl 0
  cursor_lt := Nat.lt_of_lt_of_le Nat.one_pos (Nat.le_max_left ..)
  height_pos := Nat.le_of_ble_eq_true rfl

theorem routines_update (p : Picker) (m : Message) : (p.update m).1.routines = p.routines := by
  fun_cases update p m <;> simp only [moveUp, moveDown]
  · split_ifs <;> rfl
  · split_ifs <;> rfl

namespace Steady

theorem moveUp (h : p.Steady) : p.moveUp.Steady := by
  obtain ⟨hoffset, hcursor, hheight⟩ := h
  unfold Picker.moveUp
  split_ifs
  · exact ⟨hoffset, hcursor, hheight⟩
  · exact ⟨Nat.min_le_right .., by simp only; omega, hheight⟩

theorem moveDown (h : p.Steady) : p.moveDown.Steady := by
  obtain ⟨hoffset, hcursor, hheight⟩ := h
  unfold Picker.moveDown
  simp only
  split_ifs with hlast hbelow
  · exact ⟨hoffset, hcursor, hheight⟩
  · exact ⟨by simp only; omega, by simp only; omega, hheight⟩
  · exact ⟨by simp only; omega, by simp only; omega, hheight⟩

theorem update (h : p.Steady) (m : Message) : (p.update m).1.Steady := by
  fun_cases Picker.update p m with
  | case1 => exact h.moveUp
  | case2 => exact h.moveDown
  | case3 => exact h
  | case4 => exact ⟨h.offset_le, h.cursor_lt, h.height_pos⟩
  | case5 => exact h
  | case6 => exact h
  | case7 lines => exact ⟨h.offset_le, h.cursor_lt, five_le_rowsOf lines⟩

theorem after (h : p.Steady) (ms : List Message) : (p.after ms).Steady := by
  induction ms generalizing p with
  | nil => exact h
  | cons m ms ih => exact ih (h.update m)

end Steady

theorem routines_after (p : Picker) (ms : List Message) : (p.after ms).routines = p.routines := by
  induction ms generalizing p with
  | nil => rfl
  | cons m ms ih => rw [after_cons, ih, routines_update]

/-! ### What is shown -/

theorem shows_ofRoutines (routines : List RoutineResult) : (ofRoutines routines).Shows := by
  simp [Shows, ofRoutines]

theorem Shows.moveUp (h : p.Shows) : p.moveUp.Shows := by
  obtain ⟨hoffset, hcursor⟩ := h
  unfold Picker.moveUp
  split_ifs
  · exact ⟨hoffset, hcursor⟩
  · constructor <;> simp only <;> omega

/-- Moving down shows the cursor, also if it was lost before, unless it is at its end. -/
theorem shows_moveDown (hp : p.Steady) (h : p.Shows ∨ p.cursor + 1 < p.routines.length) :
    p.moveDown.Shows := by
  obtain ⟨hoffset, -, hheight⟩ := hp
  unfold Picker.moveDown
  simp only
  split_ifs with hlast hbelow
  · exact h.resolve_right (by omega)
  · constructor <;> simp only <;> omega
  · constructor <;> simp only <;> omega

/-- A message loses the cursor only if it takes its row from the window. -/
theorem Shows.update {m : Message} (hp : p.Steady) (h : p.Shows)
    (hroom : ∀ lines, m = .resize lines → p.cursor < p.offset + rowsOf lines) : (p.update m).1.Shows := by
  fun_cases Picker.update p m with
  | case1 => exact h.moveUp
  | case2 => exact shows_moveDown hp (Or.inl h)
  | case3 => exact h
  | case4 => exact h
  | case5 => exact h
  | case6 => exact h
  | case7 lines => exact ⟨h.1, hroom lines rfl⟩

/-- The window lists the rows of its routines by their positions. -/
theorem mem_window {rr : RoutineResult} {i : Nat} :
    (rr, i) ∈ p.window ↔ p.offset ≤ i ∧ i < p.offset + p.height ∧ p.routines[i]? = some rr := by
  rw [window, List.mk_mem_zipIdx_iff_le_and_getElem?_sub, List.getElem?_take, List.getElem?_drop]
  constructor
  · rintro ⟨hle, hget⟩
    split_ifs at hget with hlt
    exact ⟨hle, by omega, by rwa [Nat.add_sub_cancel' hle] at hget⟩
  · rintro ⟨hle, hlt, hget⟩
    rw [if_pos (by omega), Nat.add_sub_cancel' hle]
    exact ⟨hle, hget⟩

theorem shows_iff_mem_window (hp : p.Steady) (hne : p.routines ≠ []) :
    p.Shows ↔ ∃ rr, (rr, p.cursor) ∈ p.window := by
  have hlt : p.cursor < p.routines.length := by
    have hpos := List.length_pos_iff.mpr hne
    have hcursor := hp.cursor_lt
    omega
  simp [mem_window, Shows, List.getElem?_eq_getElem hlt]

/-! ### A sequence of messages -/

/-- The picker of the routines after the first `k` messages. -/
def stage (routines : List RoutineResult) (ms : List Message) (k : Nat) : Picker :=
  (ofRoutines routines).after (ms.take k)

theorem steady_stage (routines : List RoutineResult) (ms : List Message) (k : Nat) :
    (stage routines ms k).Steady :=
  (steady_ofRoutines routines).after _

theorem routines_stage (routines : List RoutineResult) (ms : List Message) (k : Nat) :
    (stage routines ms k).routines = routines :=
  routines_after _ _

theorem stage_succ {ms : List Message} {k : Nat} {m : Message} (h : ms[k]? = some m) :
    stage routines ms (k + 1) = ((stage routines ms k).update m).1 :=
  after_take_succ h

theorem stage_succ_of_none {ms : List Message} {k : Nat} (h : ms[k]? = none) :
    stage routines ms (k + 1) = stage routines ms k := by
  rw [stage, List.take_add_one, h, Option.toList_none, List.append_nil, stage]

theorem shows_stage_iff (routines : List RoutineResult) (ms : List Message) :
    (∀ k, (stage routines ms k).Shows) ↔
      ∀ k lines, ms[k]? = some (.resize lines) →
        (stage routines ms k).cursor < (stage routines ms k).offset + rowsOf lines := by
  constructor
  · intro hshows k lines hk
    have hnext := (hshows (k + 1)).2
    rw [stage_succ hk] at hnext
    exact hnext
  · intro hroom k
    induction k with
    | zero => exact shows_ofRoutines routines
    | succ k ih =>
      cases hk : ms[k]? with
      | none => rwa [stage_succ_of_none hk]
      | some m =>
        rw [stage_succ hk]
        refine ih.update (steady_stage routines ms k) ?_
        intro lines hm
        exact hroom k lines (by rw [hk, hm])

/-- A picker of some routines shows its cursor throughout a sequence of messages if and only if every resize
leaves the row of the cursor in the window, which has six rows less than the screen has lines but at least
five. In any case the cursor is never above the window, it is shown if and only if its row is in the window,
and it is shown after every move down that has a row to move to. -/
theorem shows_throughout_iff (hne : routines ≠ []) (ms : List Message) (hms : ∀ m ∈ ms, m.Modest) :
    ((∀ k, (stage routines ms k).Shows) ↔
      ∀ k lines, ms[k]? = some (.resize lines) →
        ((stage routines ms k).cursor : Int) <
          (stage routines ms k).offset + max 5 (lines.toInt - 6)) ∧
      ∀ k, (stage routines ms k).offset ≤ (stage routines ms k).cursor ∧
        ((stage routines ms k).Shows ↔
          ∃ rr, (rr, (stage routines ms k).cursor) ∈ (stage routines ms k).window) ∧
        (ms[k]? = some (.key .down) → (stage routines ms k).cursor + 1 < routines.length →
          (stage routines ms (k + 1)).Shows) := by
  refine ⟨?_, ?_⟩
  · rw [shows_stage_iff]
    refine forall_congr' fun k => forall_congr' fun lines => imp_congr_right fun hk => ?_
    rw [← rowsOf_eq (hms _ (List.mem_of_getElem? hk))]
    omega
  · intro k
    have hsteady := steady_stage routines ms k
    refine ⟨hsteady.offset_le, shows_iff_mem_window hsteady ?_, ?_⟩
    · rwa [routines_stage]
    · intro hk hroom
      rw [stage_succ hk]
      refine shows_moveDown hsteady (Or.inr ?_)
      rwa [routines_stage]

/-- Six routines without a result. -/
def sixRoutines : List RoutineResult := (List.range 6).map fun (n : Nat) => { id := n }

/-- Down to the last of six rows, and then a screen that has room for five. -/
def shrinkingScreen : List Message := List.replicate 5 (.key .down) ++ [.resize 8]

theorem modest_shrinkingScreen : ∀ m ∈ shrinkingScreen, m.Modest := by
  intro m hm
  simp only [shrinkingScreen, List.mem_append, List.mem_replicate, List.mem_singleton] at hm
  rcases hm with ⟨-, rfl⟩ | rfl
  · trivial
  · exact ⟨by decide, by decide⟩

theorem shrinkingScreen_shows_throughout_iff :
    sixRoutines ≠ [] ∧ (∀ m ∈ shrinkingScreen, m.Modest) ∧
      ((∀ k, (stage sixRoutines shrinkingScreen k).Shows) ↔
        ∀ k lines, shrinkingScreen[k]? = some (.resize lines) →
          ((stage sixRoutines shrinkingScreen k).cursor : Int) <
            (stage sixRoutines shrinkingScreen k).offset + max 5 (lines.toInt - 6)) ∧
      ∀ k, (stage sixRoutines shrinkingScreen k).offset ≤ (stage sixRoutines shrinkingScreen k).cursor ∧
        ((stage sixRoutines shrinkingScreen k).Shows ↔
          ∃ rr, (rr, (stage sixRoutines shrinkingScreen k).cursor) ∈
            (stage sixRoutines shrinkingScreen k).window) ∧
        (shrinkingScreen[k]? = some (.key .down) →
          (stage sixRoutines shrinkingScreen k).cursor + 1 < sixRoutines.length →
          (stage sixRoutines shrinkingScreen (k + 1)).Shows) :=
  ⟨by decide, modest_shrinkingScreen,
    shows_throughout_iff (by decide) shrinkingScreen modest_shrinkingScreen⟩

/-- The window keeps its first row and ends above the cursor. -/
theorem shrinkingScreen_loses_cursor :
    sixRoutines ≠ [] ∧ (∀ m ∈ shrinkingScreen, m.Modest) ∧
      ((ofRoutines sixRoutines).after shrinkingScreen).cursor = 5 ∧
      ((ofRoutines sixRoutines).after shrinkingScreen).offset = 0 ∧
      ((ofRoutines sixRoutines).after shrinkingScreen).height = 5 ∧
      ¬ ((ofRoutines sixRoutines).after shrinkingScreen).Shows :=
  ⟨by decide, modest_shrinkingScreen, rfl, rfl, rfl, by decide⟩

end FlowRecovery.Picker

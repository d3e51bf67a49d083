import FlowRecovery.Proofs.Picker.Window
import Mathlib.Tactic.Simps.Basic

/-! Reading the list of a picker by index. A picker is kept in signed numbers: the first row of the window is
found by subtraction, and a routine is read at a position, which fails outside of the list. No message and no
drawing of the window reads there, whatever came before: the signed numbers are those of a picker whose cursor
and window are places in the list. Enter selects the routine at the cursor, and nothing else selects one. -/

namespace FlowRecovery.Picker

variable {p : Picker}

/-- A picker in signed numbers. -/
structure Indexed where
  routines : List RoutineResult
  cursor : Int := 0
  offset : Int := 0
  height : Int := 15
  selected : Option RoutineResult := none

namespace Indexed

def ofRoutines (routines : List RoutineResult) : Indexed := { routines }

/-- The routine at a position, unless that is outside of the list. -/
def at? (q : Indexed) (i : Int) : Option RoutineResult :=
  if 0 ≤ i then q.routines[i.toNat]? else none

def moveUp (q : Indexed) : Indexed :=
  if 0 < q.cursor then
    let next := q.cursor - 1
    { q with cursor := next, offset := if next < q.offset then next else q.offset }
  else q

def moveDown (q : Indexed) : Indexed :=
  if q.cursor < (q.routines.length : Int) - 1 then
    let next := q.cursor + 1
    { q with
      cursor := next
      offset := if q.offset + q.height ≤ next then next - q.height + 1 else q.offset }
  else q

/-- What a message makes of a picker, and whether it is done then, unless a position outside of the list is
read. -/
def update? (q : Indexed) : Message → Option (Indexed × Bool)
  | .key .up => some (q.moveUp, false)
  | .key .down => some (q.moveDown, false)
  | .key .enter =>
    if q.routines.length = 0 then some (q, false)
    else (q.at? q.cursor).map fun rr => ({ q with selected := some rr }, true)
  | .key .leave => some (q, true)
  | .key .other => some (q, false)
  | .resize lines =>
    let rows := lines.toInt - 6
    some ({ q with height := if rows < 5 then 5 else rows }, false)

def after? (q : Indexed) (ms : List Message) : Option Indexed :=
  ms.foldlM (fun q m => (q.update? m).map Prod.fst) q

/-- The next `n` routines from a position on, with their positions. -/
def rowsFrom? (q : Indexed) : (n : Nat) → (i : Int) → Option (List (RoutineResult × Int))
  | 0, _ => some []
  | n + 1, i => (q.at? i).bind fun rr => (q.rowsFrom? n (i + 1)).map ((rr, i) :: ·)

/-- The routines that are drawn: from the first row of the window to its end or that of the list. -/
def window? (q : Indexed) : Option (List (RoutineResult × Int)) :=
  q.rowsFrom? (min (q.offset + q.height) q.routines.length - q.offset).toNat q.offset

/-- Cursor and window are places in the list, and so is each row that is drawn or given a style. The window has
at most `2 ^ 31` rows, so its end fits a word wherever the length of the list leaves room for as many more. -/
structure Inside (q : Indexed) : Prop where
  offset_nonneg : 0 ≤ q.offset
  offset_le : q.offset ≤ q.cursor
  cursor_lt : q.routines ≠ [] → q.cursor < q.routines.length
  cursor_eq : q.routines = [] → q.cursor = 0
  height_ge : 5 ≤ q.height
  height_le : q.height ≤ 2147483648
  window : ∃ rows, q.window? = some rows ∧ ∀ rr i, (rr, i) ∈ rows ↔
    q.offset ≤ i ∧ i < q.offset + q.height ∧ q.at? i = some rr
  row : ∀ n : Nat, q.offset + n < q.routines.length → ∃ rr, q.at? (q.offset + n) = some rr

end Indexed

/-- The picker in signed numbers. -/
@[simps] def indexed (p : Picker) : Indexed where
  routines := p.routines
  cursor := p.cursor
  offset := p.offset
  height := p.height
  selected := p.selected

/-! ### The same steps -/

theorem at?_indexed (p : Picker) (i : Nat) : p.indexed.at? i = p.routines[i]? := by
  rw [Indexed.at?, if_pos (Int.natCast_nonneg i), Int.toNat_natCast]
  rfl

theorem moveUp_indexed (p : Picker) : p.indexed.moveUp = p.moveUp.indexed := by
  unfold Indexed.moveUp Picker.moveUp
  by_cases hfirst : p.cursor = 0
  · rw [if_pos hfirst, if_neg (by simp [hfirst])]
  · rw [if_neg hfirst, if_pos (by simp only [indexed_cursor]; omega)]
    simp only [indexed, Indexed.mk.injEq, true_and, and_true]
    omega

/-- The cursor is below the window when the window is moved, so what is subtracted is not too much. -/
theorem moveDown_indexed (p : Picker) : p.indexed.moveDown = p.moveDown.indexed := by
  unfold Indexed.moveDown Picker.moveDown
  by_cases hlast : p.routines.length ≤ p.cursor + 1
  · rw [if_pos hlast, if_neg (by simp only [indexed_cursor, indexed_routines]; omega)]
  · rw [if_neg hlast, if_pos (by simp only [indexed_cursor, indexed_routines]; omega)]
    simp only [indexed, Indexed.mk.injEq, true_and, and_true]
    by_cases hbelow : p.offset + p.height ≤ p.cursor + 1
    · rw [if_pos hbelow]
      omega
    · rw [if_neg hbelow]
      omega

/-- There is a routine at the cursor, unless there is none at all. -/
theorem Steady.routines_eq_nil (hp : p.Steady) (hnone : p.routines[p.cursor]? = none) : p.routines = [] := by
  have hlen := List.getElem?_eq_none_iff.mp hnone
  have hcursor := hp.cursor_lt
  exact List.length_eq_zero_iff.mp (by omega)

theorem update?_indexed {m : Message} (hp : p.Steady) (hm : m.Modest) :
    p.indexed.update? m = some ((p.update m).1.indexed, (p.update m).2) := by
  fun_cases Picker.update p m with
  | case1 => rw [Indexed.update?, moveUp_indexed]
  | case2 => rw [Indexed.update?, moveDown_indexed]
  | case3 hnone =>
    rw [Indexed.update?, if_pos]
    rw [indexed_routines, hp.routines_eq_nil hnone, List.length_nil]
  | case4 rr hrr =>
    have hlen : p.indexed.routines.length ≠ 0 :=
      Nat.ne_of_gt (Nat.zero_lt_of_lt (List.getElem?_eq_some_iff.mp hrr).1)
    rw [Indexed.update?, if_neg hlen, indexed_cursor, at?_indexed, hrr]
    rfl
  | case5 => rfl
  | case6 => rfl
  | case7 lines =>
    have hrows : (rowsOf lines : Int) = if lines.toInt - 6 < 5 then 5 else lines.toInt - 6 := by
      rw [rowsOf_eq hm]
      split_ifs <;> omega
    simp only [Indexed.update?, indexed, hrows]

theorem after?_indexed {ms : List Message} (hp : p.Steady) (hms : ∀ m ∈ ms, m.Modest) :
    p.indexed.after? ms = some (p.after ms).indexed := by
  induction ms generalizing p with
  | nil => rfl
  | cons m ms ih =>
    rw [Indexed.after?, List.foldlM_cons, update?_indexed hp (hms m (List.mem_cons_self ..))]
    exact ih (hp.update m) fun m' hm' => hms m' (List.mem_cons_of_mem m hm')

theorem rowsFrom?_indexed (p : Picker) {n i : Nat} (h : i + n ≤ p.routines.length) :
    p.indexed.rowsFrom? n i =
      some ((((p.routines.drop i).take n).zipIdx i).map fun row => (row.1, (row.2 : Int))) := by
  induction n generalizing i with
  | zero => rfl
  | succ n ih =>
    have hi : i < p.routines.length := by omega
    rw [Indexed.rowsFrom?, at?_indexed, List.getElem?_eq_getElem hi, Option.bind_some,
      show (i : Int) + 1 = (i + 1 : Nat) from rfl, ih (by omega), List.drop_eq_getElem_cons hi]
    rfl

/-- Every position that is read while the window is drawn is one of the list. -/
theorem window?_indexed (hp : p.Steady) :
    p.indexed.window? = some (p.window.map fun row => (row.1, (row.2 : Int))) := by
  obtain ⟨hoffset, hcursor, -⟩ := hp
  have hrows : (min (p.indexed.offset + p.indexed.height) p.indexed.routines.length -
      p.indexed.offset).toNat = min p.height (p.routines.length - p.offset) := by
    simp only [indexed]
    omega
  have htake : (p.routines.drop p.offset).take (min p.height (p.routines.length - p.offset)) =
      (p.routines.drop p.offset).take p.height := by
    rw [List.take_eq_take_iff, List.length_drop]
    omega
  rw [Indexed.window?, hrows, indexed_offset, rowsFrom?_indexed p (by omega), htake]
  rfl

/-! ### Heights -/

/-- Moves change nothing but cursor and offset. -/
theorem exists_moveUp_eq (p : Picker) :
    ∃ cursor offset, p.moveUp = { p with cursor := cursor, offset := offset } := by
  unfold moveUp
  split
  · exact ⟨_, _, rfl⟩
  · exact ⟨_, _, rfl⟩

theorem exists_moveDown_eq (p : Picker) :
    ∃ cursor offset, p.moveDown = { p with cursor := cursor, offset := offset } := by
  simp only [moveDown]
  split
  · exact ⟨_, _, rfl⟩
  · exact ⟨_, _, rfl⟩

theorem height_update_le {m : Message} (h : p.height ≤ 2147483648) (hm : m.Modest) :
    (p.update m).1.height ≤ 2147483648 := by
  fun_cases Picker.update p m with
  | case1 =>
    obtain ⟨cursor, offset, hmove⟩ := p.exists_moveUp_eq
    rw [hmove]
    exact h
  | case2 =>
    obtain ⟨cursor, offset, hmove⟩ := p.exists_moveDown_eq
    rw [hmove]
    exact h
  | case3 => exact h
  | case4 => exact h
  | case5 => exact h
  | case6 => exact h
  | case7 lines =>
    have hrows := rowsOf_eq hm
    have hlines := hm.2
    simp only
    omega

theorem height_after_le {ms : List Message} (h : p.height ≤ 2147483648) (hms : ∀ m ∈ ms, m.Modest) :
    (p.after ms).height ≤ 2147483648 := by
  induction ms generalizing p with
  | nil => exact h
  | cons m ms ih =>
    exact ih (height_update_le h (hms m (List.mem_cons_self ..)))
      fun m' hm' => hms m' (List.mem_cons_of_mem m hm')

theorem inside_indexed (hp : p.Steady) (hheight : p.height ≤ 2147483648) : p.indexed.Inside where
  offset_nonneg := Int.natCast_nonneg _
  offset_le := Int.ofNat_le.mpr hp.offset_le
  cursor_lt hne := by
    have hpos := List.length_pos_iff.mpr hne
    have hcursor := hp.cursor_lt
    simp only [indexed] at hpos ⊢
    omega
  cursor_eq hnil := by
    have hcursor := hp.cursor_lt
    simp only [indexed] at hnil ⊢
    rw [hnil, List.length_nil] at hcursor
    omega
  height_ge := Int.ofNat_le.mpr hp.height_pos
  height_le := Int.ofNat_le.mpr hheight
  window := by
    refine ⟨_, window?_indexed hp, fun rr i => ?_⟩
    constructor
    · intro hrow
      obtain ⟨⟨rr, n⟩, hmem, ⟨⟩⟩ := List.mem_map.mp hrow
      obtain ⟨hle, hlt, hget⟩ := mem_window.mp hmem
      refine ⟨Int.ofNat_le.mpr hle, ?_, by rw [at?_indexed, hget]⟩
      simp only [indexed]
      omega
    · rintro ⟨hle, hlt, hget⟩
      obtain ⟨n, rfl⟩ := Int.eq_ofNat_of_zero_le (Int.le_trans (Int.natCast_nonneg p.offset) hle)
      rw [at?_indexed] at hget
      refine List.mem_map.mpr ⟨(rr, n), mem_window.mpr ⟨Int.ofNat_le.mp hle, ?_, hget⟩, rfl⟩
      simp only [indexed] at hlt
      omega
  row n hn := by
    have hlt : p.offset + n < p.routines.length := by
      simp only [indexed] at hn
      omega
    exact ⟨_, (at?_indexed p (p.offset + n)).trans (List.getElem?_eq_getElem hlt)⟩

/-! ### What is selected -/

/-- Enter selects the routine at the cursor, if there is one, and no other message selects anything. -/
theorem selected_update (hp : p.Steady) (hnil : p.routines = [] → p.selected = none) (m : Message) :
    (p.update m).1.selected = if m = .key .enter then p.routines[p.cursor]? else p.selected := by
  fun_cases Picker.update p m with
  | case1 =>
    obtain ⟨cursor, offset, hmove⟩ := p.exists_moveUp_eq
    rw [hmove]
    rfl
  | case2 =>
    obtain ⟨cursor, offset, hmove⟩ := p.exists_moveDown_eq
    rw [hmove]
    rfl
  | case3 hnone => rw [if_pos rfl, hnone, hnil (hp.routines_eq_nil hnone)]
  | case4 rr hrr => rw [if_pos rfl, hrr]
  | case5 => rfl
  | case6 => rfl
  | case7 lines => rfl

theorem cursor_update_enter (p : Picker) : (p.update (.key .enter)).1.cursor = p.cursor := by
  unfold update
  cases p.routines[p.cursor]? <;> rfl

/-- Nothing is ever selected from an empty list. -/
theorem selected_after_of_nil (hp : p.Steady) (hnil : p.routines = []) (hselected : p.selected = none)
    (ms : List Message) : (p.after ms).selected = none := by
  induction ms generalizing p with
  | nil => exact hselected
  | cons m ms ih =>
    refine ih (hp.update m) ((routines_update p m).trans hnil) ?_
    rw [selected_update hp (fun _ => hselected), hnil, List.getElem?_nil, hselected, ite_self]

theorem selected_after_concat (routines : List RoutineResult) (ms : List Message) (m : Message) :
    ((ofRoutines routines).after (ms ++ [m])).selected =
      if m = .key .enter then routines[((ofRoutines routines).after (ms ++ [m])).cursor]?
      else ((ofRoutines routines).after ms).selected := by
  have hroutines := routines_after (ofRoutines routines) ms
  have hnil : ((ofRoutines routines).after ms).routines = [] →
      ((ofRoutines routines).after ms).selected = none := by
    intro hempty
    obtain rfl : routines = [] := hroutines.symm.trans hempty
    exact selected_after_of_nil (steady_ofRoutines []) rfl rfl ms
  rw [after_concat, selected_update ((steady_ofRoutines routines).after ms) hnil, hroutines]
  split_ifs with hm
  · rw [hm, cursor_update_enter]
    rfl
  · rfl

/-- For any routines, none included, and after any messages, a picker that reads its list by index has read no
position outside of it, and can be drawn: its numbers are those of the picker, the window starts in the list
and not behind the cursor, and the cursor is at a routine, if there is one. Enter selects the routine at the
cursor; other messages leave the selection alone. -/
theorem indexed_stays_inside (routines : List RoutineResult) (ms : List Message) (hms : ∀ m ∈ ms, m.Modest) :
    ∃ q, (Indexed.ofRoutines routines).after? ms = some q ∧
      q = ((ofRoutines routines).after ms).indexed ∧ q.routines = routines ∧ q.Inside ∧
      (ms = [] → q.selected = none) ∧
      ∀ before m, ms = before ++ [m] → ∃ q₀, (Indexed.ofRoutines routines).after? before = some q₀ ∧
        q.selected = if m = .key .enter then q.at? q.cursor else q₀.selected := by
  have hsteady := steady_ofRoutines routines
  refine ⟨_, after?_indexed hsteady hms, rfl, routines_after _ ms,
    inside_indexed (hsteady.after ms) (height_after_le (Nat.le_of_ble_eq_true rfl) hms), ?_, ?_⟩
  · rintro rfl
    rfl
  · rintro before m rfl
    refine ⟨_, after?_indexed hsteady fun m' hm' => hms m' (List.mem_append_left _ hm'), ?_⟩
    rw [indexed_selected, indexed_cursor, indexed_selected, at?_indexed, routines_after]
    exact selected_after_concat routines before m

/-- The cursor is below the window of the smaller screen, and enter selects the routine there. -/
theorem shrinkingScreen_stays_inside :
    (∀ m ∈ shrinkingScreen ++ [.key .enter], m.Modest) ∧
      ∃ q, (Indexed.ofRoutines sixRoutines).after? (shrinkingScreen ++ [.key .enter]) = some q ∧
        q.cursor = 5 ∧ q.offset = 0 ∧ q.height = 5 ∧ q.selected = some { id := 5 } ∧ q.Inside := by
  have hmodest : ∀ m ∈ shrinkingScreen ++ [.key .enter], m.Modest := by
    intro m hm
    rcases List.mem_append.mp hm with hm | hm
    · exact modest_shrinkingScreen m hm
    · obtain rfl := List.mem_singleton.mp hm
      trivial
  obtain ⟨q, hq, rfl, -, hinside, -⟩ := indexed_stays_inside sixRoutines _ hmodest
  exact ⟨hmodest, _, hq, rfl, rfl, rfl, rfl, hinside⟩

end FlowRecovery.Picker

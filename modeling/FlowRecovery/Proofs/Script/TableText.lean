import FlowRecovery.Proofs.Text.Escape
import FlowRecovery.Script.TableText
import Mathlib.Data.List.Nodup

/-! Opcode tables read back. A table is written as lines, each with a bare key and a name or a list of names
behind it. Reading a document of such lines takes each of them to an entry, in their order, as long as no
key comes twice. So a table that is in order is read back with its four parts, and the index that reading
adds finds the same names as a search of the lists does. -/

namespace FlowRecovery

namespace Toml

variable {c : Char} {cs rest : List Char} {fuel : Nat} {path : Path} {st : Store}

/-! ### Blanks -/

/-- A character that ends blanks between lines and is not the start of a comment. -/
def isSolid (c : Char) : Bool := !isSpace c && c ≠ '\r' && c ≠ '\n' && c ≠ '#'

theorem skipLines_solid (h : isSolid c = true) : skipLines (fuel + 1) (c :: cs) = c :: cs := by
  have hstay : (isSpace c || decide (c = '\r') || decide (c = '\n')) = false := by
    simp_all [isSolid]
  have hcomment : c ≠ '#' := by
    rintro rfl
    exact absurd h (by decide)
  rw [skipLines, List.dropWhile_cons_of_neg (by simp [hstay])]
  split
  · next heq => exact absurd (List.cons.inj heq).1 hcomment
  · rfl

theorem skipLines_space (h : isSolid c = true) : skipLines (fuel + 1) (' ' :: c :: cs) = c :: cs :=
  skipLines_solid h

@[simp] theorem skipSpaces_space : skipSpaces (' ' :: cs) = skipSpaces cs := rfl

theorem skipSpaces_cons (h : isSpace c = false) : skipSpaces (c :: cs) = c :: cs := by
  simp [skipSpaces, h]

/-! ### Values -/

/-- What stands behind a key: a name or a list of names. -/
inductive Cell where
  | name (s : String)
  | names (ss : List String)
deriving DecidableEq, Repr

namespace Cell

def value : Cell → Value
  | name s => .str s
  | names ss => .arr (ss.map .str)

def chars : Cell → List Char
  | name s => quoted s
  | names ss => Table.tomlNames ss

end Cell

theorem value?_quoted (inArray : Bool) (path : Path) (fuel : Nat) (s : String) (st : Store)
    {r : List Char} (h : r.head? ≠ some '"') :
    value? inArray path (fuel + 1) (quoted s ++ r) st = some (.str s, r, st) := by
  have hread := string?_quoted s h
  simp only [quoted, List.cons_append] at hread ⊢
  rw [value?, skipSpaces_cons rfl]
  simp only
  rw [hread]
  rfl

theorem value?_space (inArray : Bool) :
    value? inArray path fuel (' ' :: cs) st = value? inArray path fuel cs st := by
  cases fuel with
  | zero => rfl
  | succ fuel => rw [value?, value?, skipSpaces_space]

theorem items?_space : items? path fuel (' ' :: '"' :: cs) st = items? path fuel ('"' :: cs) st := by
  cases fuel with
  | zero => rfl
  | succ fuel => rw [items?, items?, skipLines_space rfl, skipLines_solid rfl]

theorem items?_last (s : String) :
    items? path (fuel + 2) (quoted s ++ ']' :: rest) st = some ([.str s], rest, st) := by
  have hvalue := value?_quoted true path fuel s st (r := ']' :: rest) (by simp)
  simp only [quoted, List.cons_append] at hvalue ⊢
  rw [items?, skipLines_solid rfl]
  split
  · next heq => simp at heq
  · simp only [hvalue, Option.bind_eq_bind, Option.bind_some]
    rw [skipLines_solid rfl]
    rfl

theorem items?_more (s : String) :
    items? path (fuel + 2) (quoted s ++ ',' :: rest) st =
      (items? path (fuel + 1) rest st).map fun p => (.str s :: p.1, p.2) := by
  have hvalue := value?_quoted true path fuel s st (r := ',' :: rest) (by simp)
  simp only [quoted, List.cons_append] at hvalue ⊢
  rw [items?, skipLines_solid rfl]
  split
  · next heq => simp at heq
  · simp only [hvalue, Option.bind_eq_bind, Option.bind_some]
    rw [skipLines_solid rfl]
    show (items? path (fuel + 1) rest st).bind _ = _
    cases items? path (fuel + 1) rest st <;> rfl

theorem items?_names (fuel : Nat) (s : String) (ss : List String) (h : ss.length + 2 ≤ fuel) :
    items? path fuel ([',', ' '].intercalate ((s :: ss).map quoted) ++ ']' :: rest) st =
      some ((s :: ss).map .str, rest, st) := by
  induction ss generalizing s fuel with
  | nil =>
    obtain ⟨fuel, rfl⟩ := Nat.exists_eq_add_of_le' h
    simpa using items?_last s
  | cons s' ss ih =>
    rw [List.length_cons] at h
    obtain ⟨fuel, rfl⟩ : ∃ n, fuel = n + 2 := ⟨fuel - 2, by omega⟩
    have htail := ih (fuel + 1) s' (by omega)
    have hquote : ∃ cs, [',', ' '].intercalate ((s' :: ss).map quoted) = '"' :: cs := by
      rw [List.map_cons, quoted, List.cons_append, List.intercalate_cons_cons_left]
      exact ⟨_, rfl⟩
    obtain ⟨cs, hcs⟩ := hquote
    rw [hcs, List.cons_append] at htail
    rw [List.map_cons, List.map_cons, List.intercalate_cons_cons, ← List.map_cons (f := quoted), hcs]
    simp only [List.append_assoc, List.cons_append, List.nil_append]
    rw [items?_more, items?_space, htail]
    rfl

theorem length_le_intercalate (ss : List String) :
    ss.length ≤ ([',', ' '].intercalate (ss.map quoted)).length := by
  induction ss with
  | nil => exact Nat.zero_le _
  | cons s ss ih =>
    cases ss with
    | nil => simp [quoted]
    | cons s' ss =>
      rw [List.map_cons, List.map_cons, List.intercalate_cons_cons, ← List.map_cons (f := quoted)]
      simp only [List.length_append, List.length_cons] at ih ⊢
      omega

/-- The length of the text is enough fuel for what stands behind a key. -/
theorem value?_cell (path : Path) (cell : Cell) (rest : List Char) (st : Store)
    (h : cell.chars.length < fuel) :
    ∃ st', value? false path fuel (' ' :: (cell.chars ++ '\n' :: rest)) st =
        some (cell.value, '\n' :: rest, st') ∧ st'.root = st.root := by
  obtain ⟨fuel, rfl⟩ : ∃ n, fuel = n + 1 := ⟨fuel - 1, by omega⟩
  rw [value?_space]
  cases cell with
  | name s => exact ⟨st, value?_quoted false path fuel s st (by simp), rfl⟩
  | names ss =>
    have hitems : items? path fuel ([',', ' '].intercalate (ss.map quoted) ++ ']' :: '\n' :: rest)
        (st.note path true) = some (ss.map .str, '\n' :: rest, st.note path true) := by
      have hlength := length_le_intercalate ss
      simp only [Cell.chars, Table.tomlNames, List.length_append, List.length_cons, List.length_nil] at h
      cases ss with
      | nil =>
        obtain ⟨fuel, rfl⟩ : ∃ n, fuel = n + 1 := ⟨fuel - 1, by omega⟩
        rw [List.map_nil, List.intercalate_nil, List.nil_append, items?, skipLines_solid rfl]
        rfl
      | cons s ss =>
        rw [List.length_cons] at hlength
        exact items?_names fuel s ss (by omega)
    refine ⟨st.note path true, ?_, rfl⟩
    simp only [Cell.chars, Table.tomlNames, List.cons_append, List.nil_append, List.append_assoc]
    rw [value?, skipSpaces_cons rfl]
    simp only
    rw [hitems]
    rfl

/-! ### Lines -/

/-- A key that is written as it is. -/
def IsBare (key : String) : Prop := key ≠ "" ∧ key.toList.all isBareChar = true

theorem IsBare.bare {key : String} (h : IsBare key) : ∀ c ∈ key.toList, isBareChar c = true :=
  List.all_eq_true.mp h.2

theorem IsBare.eq_cons {key : String} (h : IsBare key) :
    ∃ c cs, key.toList = c :: cs ∧ isBareChar c = true := by
  cases hkey : key.toList with
  | nil => exact absurd (String.toList_eq_nil_iff.mp hkey) h.1
  | cons c cs => exact ⟨c, cs, rfl, h.bare c (by simp [hkey])⟩

/-- A character of a bare key means nothing else to a reader of lines. -/
theorem bare_apart (h : isBareChar c = true) :
    isSolid c = true ∧ isSpace c = false ∧ c ≠ '"' ∧ c ≠ '\'' ∧ c ≠ '[' := by
  have hne {d : Char} (hd : isBareChar d = false) : c ≠ d := by
    rintro rfl
    exact Bool.false_ne_true (hd.symm.trans h)
  have hspace : isSpace c = false := by simp [isSpace, hne (d := ' ') rfl, hne (d := '\t') rfl]
  refine ⟨?_, hspace, hne rfl, hne rfl, hne rfl⟩
  simp [isSolid, hspace, hne (d := '\r') rfl, hne (d := '\n') rfl, hne (d := '#') rfl]

theorem keyPart?_bare {key : String} (h : IsBare key) (rest : List Char) :
    keyPart? (key.toList ++ ' ' :: rest) = some (key, ' ' :: rest) := by
  obtain ⟨c, cs, hkey, hc⟩ := h.eq_cons
  obtain ⟨-, -, hquote, hmark, -⟩ := bare_apart hc
  have hword : (key.toList ++ ' ' :: rest).takeWhile isBareChar = key.toList := by
    rw [List.takeWhile_append_of_pos h.bare, List.takeWhile_cons_of_neg (by decide), List.append_nil]
  have hrest : (key.toList ++ ' ' :: rest).dropWhile isBareChar = ' ' :: rest := by
    rw [List.dropWhile_append_of_pos h.bare, List.dropWhile_cons_of_neg (by decide)]
  unfold keyPart?
  split
  · next heq =>
    rw [hkey] at heq
    exact absurd (List.cons.inj heq).1 hquote
  · next heq =>
    rw [hkey] at heq
    exact absurd (List.cons.inj heq).1 hmark
  · simp only [hword, hrest]
    rw [if_neg (by simp [hkey]), String.ofList_toList]

theorem key?_bare {key : String} (h : IsBare key) :
    key? (fuel + 1) (key.toList ++ ' ' :: '=' :: rest) = some ([key], '=' :: rest) := by
  obtain ⟨c, cs, hkey, hc⟩ := h.eq_cons
  have hpart := keyPart?_bare h ('=' :: rest)
  have hskip : skipSpaces (key.toList ++ ' ' :: '=' :: rest) = key.toList ++ ' ' :: '=' :: rest := by
    rw [hkey]
    exact skipSpaces_cons (bare_apart hc).2.1
  rw [key?, hskip, hpart]
  rfl

theorem put_fresh {key : String} (h : st.root.lookup key = none) (v : Value) :
    st.put [] key v = some { st with root := st.root ++ [(key, v)] } := by
  simp [Store.put, Store.at?, Entries.tableAt?, h, Store.add, Entries.change?]

theorem tomlLine_append (key : String) (value rest : List Char) :
    Table.tomlLine key value ++ rest = key.toList ++ ' ' :: '=' :: ' ' :: (value ++ '\n' :: rest) := by
  simp [Table.tomlLine]

theorem assignment?_line {key : String} (h : IsBare key) (hfresh : st.root.lookup key = none) (cell : Cell)
    (rest : List Char) (fuel : Nat) (hfuel : cell.chars.length + 1 < fuel) :
    ∃ st', assignment? [] fuel (Table.tomlLine key cell.chars ++ rest) st = some ((), '\n' :: rest, st') ∧
      st'.root = st.root ++ [(key, cell.value)] := by
  obtain ⟨fuel, rfl⟩ : ∃ n, fuel = n + 1 := ⟨fuel - 1, by omega⟩
  obtain ⟨st', hvalue, hroot⟩ := value?_cell [key] cell rest st (Nat.lt_of_succ_lt_succ hfuel)
  have hput := put_fresh (by rwa [hroot] : st'.root.lookup key = none) cell.value
  refine ⟨{ st' with root := st'.root ++ [(key, cell.value)] }.note [key] cell.value.isArray, ?_, ?_⟩
  · rw [assignment?, tomlLine_append, key?_bare h]
    simp only [Option.bind_eq_bind, Option.bind_some, List.getLast?_singleton, List.dropLast_singleton,
      List.nil_append, Store.passThrough, hvalue, hput]
  · rw [Store.note, hroot]

/-- The text of a document with a line for each key. -/
def linesOf (cells : List (String × Cell)) : List Char :=
  cells.flatMap fun p => Table.tomlLine p.1 p.2.chars

theorem linesOf_cons (p : String × Cell) (cells : List (String × Cell)) :
    linesOf (p :: cells) = Table.tomlLine p.1 p.2.chars ++ linesOf cells :=
  List.flatMap_cons

/-- A line with a key goes to the table that is open. -/
theorem lines?_line {key : String} (h : IsBare key) (text : List Char) :
    lines? [] (fuel + 1) (key.toList ++ text) st =
      (assignment? [] (2 * (key.toList ++ text).length + 4) (key.toList ++ text) st).bind fun p =>
        (endLine? p.2.1).bind fun rest => lines? [] fuel rest p.2.2 := by
  obtain ⟨c, cs, hkey, hc⟩ := h.eq_cons
  obtain ⟨hsolid, -, -, -, hheading⟩ := bare_apart hc
  rw [lines?, hkey, List.cons_append, skipLines_solid hsolid]
  split
  · next heq => simp at heq
  · next heq => exact absurd (List.cons.inj heq).1 hheading
  · rfl

/-- Every line adds its entry. -/
theorem lines?_linesOf (cells : List (String × Cell)) (fuel : Nat) (st : Store) (h : cells.length < fuel)
    (hbare : ∀ p ∈ cells, IsBare p.1) (hnodup : (cells.map Prod.fst).Nodup)
    (hfresh : ∀ p ∈ cells, st.root.lookup p.1 = none) :
    ∃ st', lines? [] fuel (linesOf cells) st = some st' ∧
      st'.root = st.root ++ cells.map fun p => (p.1, p.2.value) := by
  induction cells generalizing fuel st with
  | nil =>
    obtain ⟨fuel, rfl⟩ := Nat.exists_eq_add_of_lt h
    exact ⟨st, rfl, (List.append_nil _).symm⟩
  | cons p cells ih =>
    obtain ⟨key, cell⟩ := p
    obtain ⟨fuel, rfl⟩ : ∃ n, fuel = n + 1 := ⟨fuel - 1, by omega⟩
    rw [List.forall_mem_cons] at hbare hfresh
    rw [List.map_cons, List.nodup_cons] at hnodup
    have hlength : cell.chars.length ≤ (Table.tomlLine key cell.chars ++ linesOf cells).length := by
      simp only [Table.tomlLine, List.length_append]
      omega
    obtain ⟨st', hentry, hroot⟩ := assignment?_line hbare.1 hfresh.1 cell (linesOf cells)
      (2 * (Table.tomlLine key cell.chars ++ linesOf cells).length + 4) (by omega)
    -- A later key is still free, since it is none of the earlier ones.
    have hfresh' : ∀ q ∈ cells, st'.root.lookup q.1 = none := by
      intro q hq
      have hne : (q.1 == key) = false := by
        refine beq_eq_false_iff_ne.mpr fun heq => hnodup.1 ?_
        exact List.mem_map.mpr ⟨q, hq, heq⟩
      rw [hroot, List.lookup_append, hfresh.2 q hq, List.lookup_cons, hne]
      rfl
    obtain ⟨st'', hlines, hroot'⟩ :=
      ih fuel st' (by rw [List.length_cons] at h; omega) hbare.2 hnodup.2 hfresh'
    refine ⟨st'', ?_, by rw [hroot', hroot, List.append_assoc]; rfl⟩
    rw [linesOf_cons, tomlLine_append, lines?_line hbare.1, ← tomlLine_append, hentry]
    exact hlines

/-! ### Documents -/

theorem bare_plain (h : isBareChar c = true) : isPlain c = true ∧ c.toNat ≠ 0xFEFF := by
  have hnumber (n : Nat) (hn : isBareChar (Char.ofNat n) = false) : c.toNat ≠ n := by
    rintro rfl
    rw [Char.ofNat_toNat, h] at hn
    exact Bool.noConfusion hn
  have hcontrol : ∀ n < 32, isBareChar (Char.ofNat n) = false := by decide
  have hlow : 32 ≤ c.toNat := Nat.not_lt.mp fun hlow => hnumber _ (hcontrol _ hlow) rfl
  exact ⟨by simp [isPlain, hlow, hnumber 127 (by decide)], hnumber 0xFEFF (by decide)⟩

theorem plain_intercalate (ss : List String) :
    ∀ c ∈ [',', ' '].intercalate (ss.map quoted), isPlain c = true := by
  induction ss with
  | nil => simp
  | cons s ss ih =>
    cases ss with
    | nil => simpa using quoted_plain s
    | cons s' ss =>
      rw [List.map_cons, List.map_cons, List.intercalate_cons_cons, ← List.map_cons (f := quoted)]
      intro c hc
      simp only [List.mem_append, List.mem_cons, List.not_mem_nil, or_false] at hc
      rcases hc with (hc | rfl | rfl) | hc
      · exact quoted_plain s c hc
      · rfl
      · rfl
      · exact ih c hc

theorem Cell.plain_chars (cell : Cell) : ∀ c ∈ cell.chars, isPlain c = true := by
  cases cell with
  | name s => exact quoted_plain s
  | names ss =>
    intro c hc
    simp only [Cell.chars, Table.tomlNames, List.mem_append, List.mem_singleton] at hc
    rcases hc with (rfl | hc) | rfl
    · rfl
    · exact plain_intercalate ss c hc
    · rfl

theorem isClean_of_forall {cs : List Char} (h : ∀ c ∈ cs, c = '\n' ∨ isPlain c = true) :
    isClean cs = true := by
  induction cs with
  | nil => rfl
  | cons c cs ih =>
    rw [List.forall_mem_cons] at h
    rw [isClean, ih h.2, Bool.and_true]
    · rcases h.1 with rfl | hplain
      · rfl
      · rw [isPlain] at hplain
        rw [hplain, Bool.or_true]
    · rintro rfl
      exact absurd h.1 (by decide)

theorem isClean_linesOf {cells : List (String × Cell)} (hbare : ∀ p ∈ cells, IsBare p.1) :
    isClean (linesOf cells) = true := by
  refine isClean_of_forall fun c hmem => ?_
  obtain ⟨p, hp, hc⟩ := List.mem_flatMap.mp hmem
  rw [← List.append_nil (Table.tomlLine _ _), tomlLine_append] at hc
  simp only [List.mem_append, List.mem_cons, List.not_mem_nil, or_false] at hc
  rcases hc with hc | rfl | rfl | rfl | hc | rfl
  · exact Or.inr (bare_plain ((hbare p hp).bare c hc)).1
  · exact Or.inr rfl
  · exact Or.inr rfl
  · exact Or.inr rfl
  · exact Or.inr (p.2.plain_chars c hc)
  · exact Or.inl rfl

theorem length_le_linesOf (cells : List (String × Cell)) : cells.length ≤ (linesOf cells).length := by
  induction cells with
  | nil => exact Nat.le_refl 0
  | cons p cells ih =>
    rw [linesOf_cons, tomlLine_append]
    simp only [List.length_append, List.length_cons]
    omega

theorem parse?_ofList {cs : List Char} (h : ∀ c ∈ cs.head?, c.toNat ≠ 0xFEFF) :
    parse? (String.ofList cs) =
      if isClean cs then (lines? [] (cs.length + 1) cs {}).map (·.root) else none := by
  cases cs with
  | nil => rfl
  | cons c cs => simp [parse?, h c rfl]

/-- A document of lines is read back, one entry a line. -/
theorem parse?_linesOf {cells : List (String × Cell)} (hbare : ∀ p ∈ cells, IsBare p.1)
    (hnodup : (cells.map Prod.fst).Nodup) :
    parse? (String.ofList (linesOf cells)) = some (cells.map fun p => (p.1, p.2.value)) := by
  obtain ⟨st, hlines, hroot⟩ := lines?_linesOf cells ((linesOf cells).length + 1) {}
    (Nat.lt_succ_of_le (length_le_linesOf cells)) hbare hnodup (by simp)
  have hmark : ∀ c ∈ (linesOf cells).head?, c.toNat ≠ 0xFEFF := by
    cases cells with
    | nil => simp [linesOf]
    | cons p cells =>
      obtain ⟨c, cs, hkey, hc⟩ := (hbare p (by simp)).eq_cons
      rw [linesOf_cons, tomlLine_append, hkey]
      rintro _ ⟨⟩
      exact (bare_plain hc).2
  rw [parse?_ofList hmark, if_pos (isClean_linesOf hbare), hlines, Option.map_some, hroot]
  rfl

end Toml

namespace NameSet

theorem contains_ofList (names : List String) (name : String) :
    (ofList names).contains name = names.contains name := by
  rw [Bool.eq_iff_iff]
  simp [contains, ofList]

end NameSet

namespace Table

open Toml (Cell linesOf IsBare)

variable {t : Table}

/-! ### Names by index -/

theorem isTerminal_withIndex (h : t.index = none) : t.withIndex.isTerminal = t.isTerminal := by
  funext name
  simp [isTerminal, withIndex, h, NameSet.contains_ofList]

theorem isBranch_withIndex (h : t.index = none) : t.withIndex.isBranch = t.isBranch := by
  funext name
  simp [isBranch, withIndex, h, NameSet.contains_ofList]

theorem isJump_withIndex (h : t.index = none) : t.withIndex.isJump = t.isJump := by
  funext name
  simp [isJump, withIndex, h, NameSet.contains_ofList]

theorem classify_withIndex (h : t.index = none) (op : Operation) :
    t.withIndex.classify op = t.classify op := by
  simp only [classify, isBranch_withIndex h, isJump_withIndex h]

theorem endsFlow_withIndex (h : t.index = none) (op : Operation) :
    t.withIndex.endsFlow op = t.endsFlow op := by
  simp only [endsFlow, isTerminal_withIndex h]

/-! ### Tables -/

def listCell (key : String) (names : Option (List String)) : List (String × Cell) :=
  names.toList.map fun ss => (key, .names ss)

/-- The lines of a table. -/
def cells (t : Table) : List (String × Cell) :=
  ("hold", .name t.hold) ::
    (listCell "terminal" t.terminal ++ listCell "branch" t.branch ++ listCell "jump" t.jump)

theorem tomlList_eq (key : String) (names : Option (List String)) :
    tomlList key names = linesOf (listCell key names) := by
  cases names with
  | none => rfl
  | some ss => simp [tomlList, listCell, linesOf, Cell.chars]

theorem toml_eq (t : Table) : t.toml = String.ofList (linesOf t.cells) := by
  rw [toml, cells, Toml.linesOf_cons, tomlList_eq, tomlList_eq, tomlList_eq]
  simp [linesOf, Cell.chars]

/-- The keys of a table are among the four, each at most once. -/
theorem cells_keys (t : Table) :
    (t.cells.map Prod.fst).Sublist ["hold", "terminal", "branch", "jump"] := by
  have hlist (key : String) (names : Option (List String)) :
      ((listCell key names).map Prod.fst).Sublist [key] := by
    cases names with
    | none => exact List.nil_sublist _
    | some ss => exact List.Sublist.refl _
  rw [cells, List.map_cons, List.map_append, List.map_append]
  exact (((hlist _ _).append (hlist _ _)).append (hlist _ _)).cons_cons _

theorem parse?_toml (t : Table) : Toml.parse? t.toml = some (t.cells.map fun p => (p.1, p.2.value)) := by
  have hkeys : ∀ key ∈ ["hold", "terminal", "branch", "jump"], IsBare key := by
    simp only [IsBare]
    decide
  rw [toml_eq]
  refine Toml.parse?_linesOf (fun p hp => hkeys _ ?_) (t.cells_keys.nodup (by decide))
  exact t.cells_keys.subset (List.mem_map_of_mem hp)

theorem keys_lowercase :
    ∀ key ∈ ["hold", "terminal", "branch", "jump"], key.map Char.toLower = key := by
  decide +kernel

@[simp] theorem takeEntry_hold (t : Table) (hold : String) :
    t.takeEntry ("hold", (Cell.name hold).value) = some { t with hold } := by
  simp only [takeEntry, keys_lowercase "hold" (by simp)]
  rfl

theorem tomlStrings?_names (ss : List String) : tomlStrings? (Cell.names ss).value = some ss := by
  induction ss with
  | nil => rfl
  | cons s ss ih =>
    simp only [Cell.value, tomlStrings?, List.map_cons, List.mapM_cons] at ih ⊢
    rw [ih]
    rfl

@[simp] theorem takeEntry_terminal (t : Table) (ss : List String) :
    t.takeEntry ("terminal", (Cell.names ss).value) = some { t with terminal := some ss } := by
  simp only [takeEntry, keys_lowercase "terminal" (by simp), tomlStrings?_names, Option.map_some]

@[simp] theorem takeEntry_branch (t : Table) (ss : List String) :
    t.takeEntry ("branch", (Cell.names ss).value) = some { t with branch := some ss } := by
  simp only [takeEntry, keys_lowercase "branch" (by simp), tomlStrings?_names, Option.map_some]

@[simp] theorem takeEntry_jump (t : Table) (ss : List String) :
    t.takeEntry ("jump", (Cell.names ss).value) = some { t with jump := some ss } := by
  simp only [takeEntry, keys_lowercase "jump" (by simp), tomlStrings?_names, Option.map_some]

/-- What a table says is read back; a list that is missing stays missing. -/
theorem ofToml?_toml (t : Table) : ofToml? t.toml = some { t with index := none } := by
  obtain ⟨hold, terminal, branch, jump, index⟩ := t
  rw [ofToml?, parse?_toml]
  cases terminal <;> cases branch <;> cases jump <;> simp [cells, listCell]

/-- A literal that is in order is read back, with an index added to it. -/
theorem parse_toml_eq (hindex : t.index = none) (hvalid : t.validate = .ok ()) :
    parse t.toml = .ok t.withIndex := by
  have hsame : { t with index := none } = t := by rw [← hindex]
  rw [parse, ofToml?_toml, hsame, checked, hvalid]
  rfl

/-- A table literal in order is read back from its text: the same holding opcode and the same lists, in
their order. What is read looks its names up in an index, and judges every operation as the literal does
by its lists. -/
theorem parse_toml (t : Table) (hindex : t.index = none) (hvalid : t.validate = .ok ()) :
    ∃ t', parse t.toml = .ok t' ∧ t'.hold = t.hold ∧ t'.terminals = t.terminals ∧
      t'.branches = t.branches ∧ t'.jumps = t.jumps ∧ t'.index.isSome ∧
      (∀ op, t'.classify op = t.classify op ∧ t'.endsFlow op = t.endsFlow op) ∧
      ∀ name, t'.isHold name = t.isHold name := by
  refine ⟨t.withIndex, parse_toml_eq hindex hvalid, rfl, rfl, rfl, rfl, rfl, fun op => ?_, fun _ => rfl⟩
  exact ⟨classify_withIndex hindex op, endsFlow_withIndex hindex op⟩

/-- Awkward names: quotes, a backslash, control characters, letters beyond ASCII, nothing at all. The
lists share names and repeat them, and one is missing. -/
def awkward : Table :=
  { hold := "\"\\"
    terminal := some ["", "a\nb", "", "\x7f\x01"]
    jump := some ["é \t𝄞", "a\nb", "'#]", "é \t𝄞"] }

theorem awkward_parse_toml :
    awkward.index = none ∧ awkward.validate = .ok () ∧
      ∃ t', parse awkward.toml = .ok t' ∧ t'.hold = awkward.hold ∧ t'.terminals = awkward.terminals ∧
        t'.branches = awkward.branches ∧ t'.jumps = awkward.jumps ∧ t'.index.isSome ∧
        (∀ op, t'.classify op = awkward.classify op ∧ t'.endsFlow op = awkward.endsFlow op) ∧
        ∀ name, t'.isHold name = awkward.isHold name :=
  ⟨rfl, by decide, parse_toml awkward rfl (by decide)⟩

end Table

end FlowRecovery

import FlowRecovery.Json.Reader
import FlowRecovery.Json.Writer
import FlowRecovery.Toml.Quoted
import Mathlib.Data.List.Basic

/-! Quoted text reads back. JSON and TOML write a character in one of three ways: by a letter behind a
backslash, by the hexadecimal digits of its number, or as itself. Each way is read back to the character it
stands for, so a text between quotes is read back whole, whatever follows it. -/

namespace FlowRecovery

variable {c : Char} {rest : List Char}

namespace Text

theorem hexDigits_four (n : Nat) :
    hexDigits 4 n = [Nat.digitChar (n / 4096 % 16), Nat.digitChar (n / 256 % 16),
      Nat.digitChar (n / 16 % 16), Nat.digitChar (n % 16)] := by
  simp [hexDigits, Nat.div_div_eq_div_mul]

/-- The letters behind a backslash, with what they stand for. -/
def letters : List (Char × Char) :=
  [('"', '"'), ('\\', '\\'), ('b', Char.ofNat 8), ('t', '\t'), ('n', '\n'), ('f', Char.ofNat 12),
    ('r', '\r')]

/-- A character by its letter, or in another way, for which its number counts, if it has none. -/
def byLetterOr (c : Char) (other : Nat → List Char) : List Char :=
  if c = '"' ∨ c = '\\' then ['\\', c]
  else match c.toNat with
    | 8 => ['\\', 'b']
    | 9 => ['\\', 't']
    | 10 => ['\\', 'n']
    | 12 => ['\\', 'f']
    | 13 => ['\\', 'r']
    | n => other n

theorem byLetterOr_cases (c : Char) (other : Nat → List Char) :
    (∃ e, (e, c) ∈ letters ∧ byLetterOr c other = ['\\', e]) ∨
      (byLetterOr c other = other c.toNat ∧ c ≠ '"' ∧ c ≠ '\\') := by
  have hletter (n : Nat) (e : Char) (h : c.toNat = n) (hmem : (e, Char.ofNat n) ∈ letters) :
      (e, c) ∈ letters := by
    rwa [← h, Char.ofNat_toNat] at hmem
  unfold byLetterOr
  split
  · next h =>
    left
    rcases h with rfl | rfl <;> exact ⟨_, by decide, rfl⟩
  · next hmark =>
    split
    · next h => exact Or.inl ⟨'b', hletter 8 'b' h (by decide), rfl⟩
    · next h => exact Or.inl ⟨'t', hletter 9 't' h (by decide), rfl⟩
    · next h => exact Or.inl ⟨'n', hletter 10 'n' h (by decide), rfl⟩
    · next h => exact Or.inl ⟨'f', hletter 12 'f' h (by decide), rfl⟩
    · next h => exact Or.inl ⟨'r', hletter 13 'r' h (by decide), rfl⟩
    · exact Or.inr ⟨rfl, by tauto, by tauto⟩

end Text

open Text (letters byLetterOr byLetterOr_cases hexDigits_four)

/-! ### JSON -/

namespace Json

theorem escapeChar_eq (c : Char) :
    escapeChar c = byLetterOr c fun n =>
      if n < 32 ∨ c = '<' ∨ c = '>' ∨ c = '&' ∨ n = 0x2028 ∨ n = 0x2029 then
        '\\' :: 'u' :: Text.hexDigits 4 n
      else [c] :=
  rfl

end Json

/-! ### TOML -/

namespace Toml

theorem hexDigit?_digitChar : ∀ d < 16, hexDigit? (Nat.digitChar d) = some d := by decide

theorem numbered?_hexDigits (h : c.toNat < 128) : numbered? (Text.hexDigits 4 c.toNat) = some c := by
  have hdigit (m : Nat) : hexDigit? (Nat.digitChar (m % 16)) = some (m % 16) :=
    hexDigit?_digitChar _ (Nat.mod_lt _ (by decide))
  have hnumber : hexNumber? (Text.hexDigits 4 c.toNat) = some c.toNat := by
    simp only [hexDigits_four, hexNumber?, List.foldl_cons, List.foldl_nil, hdigit, bind, Option.bind,
      Option.some.injEq]
    omega
  rw [numbered?, hnumber]
  simp only [bind, Option.bind]
  rw [if_neg (by omega), Char.ofNat_toNat]

theorem escapeChar_eq (c : Char) :
    escapeChar c = byLetterOr c fun n =>
      if n < 32 ∨ n = 127 then '\\' :: 'u' :: Text.hexDigits 4 n else [c] :=
  rfl

theorem escaped?_letters : ∀ p ∈ letters, p.1 ≠ 'u' ∧ p.1 ≠ 'U' ∧ escaped? p.1 = some p.2 := by decide

theorem escape?_letter {e : Char} (h : (e, c) ∈ letters) (rest : List Char) :
    escape? (e :: rest) = some (c, rest) := by
  obtain ⟨hu, hU, hshort⟩ := escaped?_letters _ h
  rw [escape?, hshort]
  · rfl
  · intro _ _ _ _ _ he _
    exact hu he
  · intro _ _ _ _ _ _ _ _ _ he _
    exact hU he

theorem basicBody_escapeChar (c : Char) (fuel : Nat) (rest : List Char) :
    basicBody (fuel + 1) (escapeChar c ++ rest) = (basicBody fuel rest).map fun p => (c :: p.1, p.2) := by
  have hescape {e : Char} (digits : List Char) (h : escape? (e :: (digits ++ rest)) = some (c, rest)) :
      basicBody (fuel + 1) ('\\' :: e :: (digits ++ rest)) =
        (basicBody fuel rest).map fun p => (c :: p.1, p.2) := by
    rw [basicBody, if_neg (by decide), if_neg (by decide), if_pos rfl, h]
    simp only [Option.bind_eq_bind, Option.bind_some]
    cases basicBody fuel rest <;> rfl
  rw [escapeChar_eq]
  rcases byLetterOr_cases c _ with ⟨e, hletter, he⟩ | ⟨he, hquote, hslash⟩
  · rw [he]
    exact hescape [] (escape?_letter hletter rest)
  · rw [he]
    split
    · next hnumber =>
      have hread := numbered?_hexDigits (c := c) (by omega)
      rw [hexDigits_four] at hread ⊢
      refine hescape (e := 'u') [_, _, _, _] ?_
      simp only [List.cons_append, List.nil_append, escape?, hread]
      rfl
    · next hself =>
      have hline : c ≠ '\n' := by
        rintro rfl
        exact hself (Or.inl (by decide))
      simp only [List.cons_append, List.nil_append]
      rw [basicBody, if_neg hquote, if_neg hline, if_neg hslash]
      cases basicBody fuel rest <;> rfl

theorem basicBody_escaped (cs rest : List Char) {fuel : Nat} (h : cs.length < fuel) :
    basicBody fuel (cs.flatMap escapeChar ++ '"' :: rest) = some (cs, rest) := by
  induction cs generalizing fuel with
  | nil =>
    obtain ⟨fuel, rfl⟩ := Nat.exists_eq_add_one_of_ne_zero (Nat.ne_of_gt h)
    rfl
  | cons c cs ih =>
    obtain ⟨fuel, rfl⟩ := Nat.exists_eq_add_one_of_ne_zero (Nat.ne_of_gt (Nat.zero_lt_of_lt h))
    rw [List.flatMap_cons, List.append_assoc, basicBody_escapeChar, ih (Nat.lt_of_succ_lt_succ h)]
    rfl

theorem string?_basic {cs : List Char} (h : ∀ more, cs ≠ '"' :: '"' :: more) :
    string? ('"' :: cs) = (basicBody (cs.length + 1) cs).map fun p => (String.ofList p.1, p.2) := by
  unfold string?
  split
  · next more heq => exact absurd (List.cons.inj heq).2 (h more)
  · next heq => simp at heq
  · next heq =>
    obtain rfl := (List.cons.inj heq).2
    rfl
  · next heq => simp at heq
  · next hbasic _ => exact absurd rfl (hbasic cs)

/-- No character is written as nothing or with a quote in front. -/
theorem escapeChar_eq_cons (c : Char) : ∃ d more, escapeChar c = d :: more ∧ d ≠ '"' := by
  rw [escapeChar_eq]
  rcases byLetterOr_cases c _ with ⟨e, -, he⟩ | ⟨he, hquote, -⟩
  · rw [he]
    exact ⟨_, _, rfl, by decide⟩
  · rw [he]
    split
    · exact ⟨_, _, rfl, by decide⟩
    · exact ⟨_, _, rfl, hquote⟩

theorem length_le_escaped (cs : List Char) : cs.length ≤ (cs.flatMap escapeChar).length := by
  induction cs with
  | nil => exact Nat.le_refl 0
  | cons c cs ih =>
    obtain ⟨d, more, hc, -⟩ := escapeChar_eq_cons c
    rw [List.flatMap_cons, hc]
    simp only [List.length_cons, List.length_append]
    omega

/-- A text is read back, unless it is empty and a third quote follows. -/
theorem string?_quoted (s : String) (h : rest.head? ≠ some '"') :
    string? (quoted s ++ rest) = some (s, rest) := by
  simp only [quoted, List.cons_append, List.append_assoc, List.nil_append]
  rw [string?_basic]
  · have hlength := length_le_escaped s.toList
    rw [basicBody_escaped _ _ (by rw [List.length_append]; omega)]
    simp
  · intro more heq
    cases hs : s.toList with
    | nil => simp_all
    | cons c cs =>
      obtain ⟨d, rest', hc, hd⟩ := escapeChar_eq_cons c
      rw [hs, List.flatMap_cons, hc, List.cons_append, List.cons_append] at heq
      exact hd (List.cons.inj heq).1

/-- A character that is not a control character. -/
def isPlain (c : Char) : Bool := 32 ≤ c.toNat && c.toNat ≠ 127

theorem letters_plain : ∀ p ∈ letters, isPlain p.1 = true := by decide

theorem digitChar_plain : ∀ d < 16, isPlain (Nat.digitChar d) = true := by decide

/-- A text is written without control characters. -/
theorem quoted_plain (s : String) : ∀ c ∈ quoted s, isPlain c = true := by
  intro c hc
  simp only [quoted, List.mem_cons, List.mem_append, List.mem_flatMap, List.not_mem_nil, or_false] at hc
  rcases hc with (rfl | ⟨d, -, hd⟩) | rfl
  · rfl
  · rw [escapeChar_eq] at hd
    rcases byLetterOr_cases d _ with ⟨e, hletter, he⟩ | ⟨he, -, -⟩
    · rw [he] at hd
      simp only [List.mem_cons, List.not_mem_nil, or_false] at hd
      rcases hd with rfl | rfl
      · rfl
      · exact letters_plain _ hletter
    · rw [he] at hd
      split at hd
      · have hdigit (m : Nat) := digitChar_plain (m % 16) (Nat.mod_lt _ (by decide))
        rw [hexDigits_four] at hd
        simp only [List.mem_cons, List.not_mem_nil, or_false] at hd
        rcases hd with rfl | rfl | rfl | rfl | rfl | rfl
        · rfl
        · rfl
        · exact hdigit _
        · exact hdigit _
        · exact hdigit _
        · exact hdigit _
      · next hself =>
        obtain rfl := List.mem_singleton.mp hd
        simpa [isPlain, not_or] using hself
  · rfl

end Toml

end FlowRecovery

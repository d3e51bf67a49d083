import FlowRecovery.Json.Basic
import FlowRecovery.Text.Quoted

/-! JSON text. The indented form gives every item and every field a line of its own, two blanks
deeper than its container; empty containers stay on one line. Characters that mean something to a
page of hypertext or end a line there are escaped. -/
namespace FlowRecovery.Json

def escapeChar (c : Char) : List Char :=
  if c = '"' ∨ c = '\\' then ['\\', c]
  else match c.toNat with
    | 8 => ['\\', 'b']
    | 9 => ['\\', 't']
    | 10 => ['\\', 'n']
    | 12 => ['\\', 'f']
    | 13 => ['\\', 'r']
    | n =>
      if n < 32 ∨ c = '<' ∨ c = '>' ∨ c = '&' ∨ n = 0x2028 ∨ n = 0x2029 then
        '\\' :: 'u' :: Text.hexDigits 4 n
      else [c]

def stringChars (s : String) : List Char := '"' :: s.toList.flatMap escapeChar ++ ['"']

def intChars (n : Int) : List Char := (toString n).toList

/-- What stands between the parts of a container: nothing, or a line break and an indentation. -/
structure Spacing where
  unit : List Char
  newline : Bool
  colon : List Char

def Spacing.compact : Spacing := ⟨[], false, [':']⟩

def Spacing.indented : Spacing := ⟨[' ', ' '], true, [':', ' ']⟩

def Spacing.break (s : Spacing) (depth : Nat) : List Char :=
  if s.newline then '\n' :: (List.replicate depth s.unit).flatten else []

mutual

def chars (s : Spacing) (depth : Nat) : Json → List Char
  | null => "null".toList
  | bool b => (if b then "true" else "false").toList
  | int n => intChars n
  | real literal => literal.toList
  | str text => stringChars text
  | arr [] => ['[', ']']
  | arr (item :: rest) =>
    '[' :: s.break (depth + 1) ++ chars s (depth + 1) item ++ moreItems s (depth + 1) rest
      ++ s.break depth ++ [']']
  | obj [] => ['{', '}']
  | obj ((name, value) :: rest) =>
    '{' :: s.break (depth + 1) ++ stringChars name ++ s.colon ++ chars s (depth + 1) value
      ++ moreFields s (depth + 1) rest ++ s.break depth ++ ['}']

def moreItems (s : Spacing) (depth : Nat) : List Json → List Char
  | [] => []
  | item :: rest => ',' :: s.break depth ++ chars s depth item ++ moreItems s depth rest

def moreFields (s : Spacing) (depth : Nat) : List (String × Json) → List Char
  | [] => []
  | (name, value) :: rest =>
    ',' :: s.break depth ++ stringChars name ++ s.colon ++ chars s depth value
      ++ moreFields s depth rest

end

def compact (j : Json) : String := String.ofList (j.chars .compact 0)

/-- The indented text, with a line break at its end. -/
def indented (j : Json) : String := String.ofList (j.chars .indented 0 ++ ['\n'])

end FlowRecovery.Json

/-! Text laid out on a screen. A block is as wide as its widest line, and shorter lines are filled
with blanks. -/
namespace FlowRecovery.Display

def blanks (n : Nat) : String := String.ofList (List.replicate n ' ')

/-- Characters that take up a column. -/
def width (s : String) : Nat := s.toList.countP fun c => 32 ≤ c.toNat && c.toNat ≠ 127

def padRight (n : Nat) (s : String) : String := s ++ blanks (n - width s)

def padLeft (n : Nat) (s : String) : String := blanks (n - width s) ++ s

/-- Tabs become four blanks, and only line feeds end lines. -/
def settle : List Char → List Char
  | [] => []
  | '\t' :: rest => [' ', ' ', ' ', ' '] ++ settle rest
  | '\r' :: '\n' :: rest => '\n' :: settle rest
  | c :: rest => c :: settle rest

/-- A text as a block of at least the given width. -/
def block (least : Nat) (s : String) : String :=
  let lines := (String.ofList (settle s.toList)).splitOn "\n"
  let wide := (lines.map width).foldl max least
  "\n".intercalate (lines.map (padRight wide))

end FlowRecovery.Display

import FlowRecovery.Display.Block

/-! Grids with a heading and rounded corners. A column is as wide as its widest cell. -/
namespace FlowRecovery.Display

structure Grid where
  header : List String
  rows : List (List String) := []
deriving DecidableEq, Repr

namespace Grid

def columnWidths (g : Grid) : List Nat :=
  g.rows.foldl (fun ws row => List.zipWith (fun w cell => max w (width cell)) ws row)
    (g.header.map width)

def rule (left middle right : String) (widths : List Nat) : String :=
  left ++ middle.intercalate (widths.map fun w => String.ofList (List.replicate w '─')) ++ right

def line (widths : List Nat) (cells : List String) : String :=
  "│" ++ "│".intercalate (List.zipWith padRight widths cells) ++ "│"

def lines (g : Grid) : List String :=
  let ws := g.columnWidths
  [rule "╭" "┬" "╮" ws, line ws g.header, rule "├" "┼" "┤" ws] ++ g.rows.map (line ws)
    ++ [rule "╰" "┴" "╯" ws]

def render (g : Grid) : String := "\n".intercalate g.lines

end Grid

end FlowRecovery.Display

import FlowRecovery.Fault
import FlowRecovery.Text.Digit
import FlowRecovery.Text.Letter
import FlowRecovery.Text.Lowercase
import FlowRecovery.Text.Quoted

/-! Checks on what a user hands in: paths, the extension of a listing, the number of workers and the
names of opcodes. Texts are checked as pieces, since they may come with stray bytes. -/
namespace FlowRecovery.Input

open Text

def maxPathBytes : Nat := 4096

def maxWorkers : Int := 1024

def isControl (c : Char) : Bool := c.toNat < 32 || (127 ≤ c.toNat && c.toNat < 160)

def checkPath (path : List Piece) : Except Fault Unit :=
  let refuse message := .error (.coded .invalidPath message)
  if path.isEmpty then refuse "path cannot be empty"
  else if maxPathBytes < Piece.byteLength path then
    refuse ("path too long (max " ++ toString maxPathBytes ++ " characters)")
  else if path.any (isControl ·.toChar) then refuse "path contains invalid characters"
  else .ok ()

/-- From the last point of the last part of the path on, if it has one. -/
def extension (path : List Piece) : List Piece :=
  let last := path.reverse.takeWhile (· ≠ .char '/')
  match last.dropWhile (· ≠ .char '.') with
  | [] => []
  | _ => .char '.' :: (last.takeWhile (· ≠ .char '.')).reverse

/-- Small letters throughout; a stray byte becomes the replacement character. -/
def lowerPieces (ps : List Piece) : List Piece := ps.map fun p => .char (lowerChar p.toChar)

def listingExtensions : List String := [".yaml", ".yml", ".json"]

def checkListingPath (path : List Piece) : Except Fault Unit := do
  checkPath path
  let ext := lowerPieces (extension path)
  if listingExtensions.any (Piece.ofString · = ext) then .ok ()
  else .error (.coded .invalidPath
    ("unsupported listing extension " ++ quotePieces ext ++ " (want .yaml, .yml or .json)"))

def checkWorkers (n : Int) : Except Fault Unit :=
  if n < 0 then
    .error (.coded .invalidInput ("workers must not be negative, got " ++ toString n))
  else if maxWorkers < n then
    .error (.coded .invalidInput
      ("workers too large (max " ++ toString maxWorkers ++ "), got " ++ toString n))
  else .ok ()

def isNameChar (c : Char) : Bool := isLetter c || isDigit c || c = '_'

def checkOpcodeName (name : List Piece) : Except Fault Unit :=
  if name.isEmpty then .error (.coded .invalidListing "opcode name cannot be empty")
  else match name.find? (!isNameChar ·.toChar) with
    | none => .ok ()
    | some p =>
      .error (.coded .invalidListing
        ("opcode name " ++ quotePieces name ++ " contains invalid character "
          ++ quoteOne p.toChar))

theorem checkWorkers_ok_iff (n : Int) : checkWorkers n = .ok () ↔ 0 ≤ n ∧ n ≤ 1024 := by
  unfold checkWorkers maxWorkers
  split
  · simp; omega
  · split
    · simp; omega
    · simp; omega

end FlowRecovery.Input

import FlowRecovery.Toml.Atom

/-! The tables of a TOML document while it is read. Keys may be dotted and tables may be given piece
by piece, so a document puts values at paths. A path that has a value keeps it, and another value
for it is refused, with two exceptions: a table that so far only stood on the way to another one
may be given once, and an array gives way to what comes after it. -/
namespace FlowRecovery.Toml

abbrev Path := List String

inductive Value where
  | str (s : String)
  | atom (a : Atom)
  | arr (items : List Value)
  | table (entries : List (String × Value))
  /-- Tables under one heading; the last one is the one that grows. -/
  | tables (all : List (List (String × Value)))
deriving Inhabited, Repr

def Value.isArray : Value → Bool
  | arr _ => true
  | _ => false

abbrev Entries := List (String × Value)

namespace Entries

def set (es : Entries) (k : String) (v : Value) : Entries :=
  es.map fun e => if e.1 = k then (k, v) else e

/-- The table at a path. -/
def tableAt? : Path → Entries → Option Entries
  | [], es => some es
  | k :: path, es =>
    match es.lookup k with
    | some (.table inner) => tableAt? path inner
    | some (.tables all) => all.getLast?.bind (tableAt? path)
    | _ => none

/-- Changes the table at a path. -/
def change? (f : Entries → Entries) : Path → Entries → Option Entries
  | [], es => some (f es)
  | k :: path, es =>
    match es.lookup k with
    | some (.table inner) => (change? f path inner).map fun t => set es k (.table t)
    | some (.tables all) =>
      all.getLast?.bind fun last =>
        (change? f path last).map fun t => set es k (.tables (all.dropLast ++ [t]))
    | _ => none

end Entries

structure Store where
  root : Entries := []
  /-- Tables that only stand on the way to another one. -/
  onTheWay : List Path := []
  arrays : List Path := []
deriving Inhabited

namespace Store

def at? (s : Store) (path : Path) (k : String) : Option (Option Value) :=
  (Entries.tableAt? path s.root).map (List.lookup k)

def add (s : Store) (path : Path) (k : String) (v : Value) : Option Store :=
  (Entries.change? (· ++ [(k, v)]) path s.root).map fun root => { s with root }

def replace (s : Store) (path : Path) (k : String) (v : Value) : Option Store :=
  (Entries.change? (Entries.set · k v) path s.root).map fun root => { s with root }

def passing (s : Store) (path : Path) : Store := { s with onTheWay := path :: s.onTheWay }

def given (s : Store) (path : Path) : Store := { s with onTheWay := s.onTheWay.filter (· ≠ path) }

/-- Notes whether there is an array at a path. -/
def note (s : Store) (path : Path) (isArray : Bool) : Store :=
  let others := s.arrays.filter (· ≠ path)
  { s with arrays := if isArray then path :: others else others }

/-- Gives a value to a key. -/
def put (s : Store) (path : Path) (k : String) (v : Value) : Option Store :=
  let full := path ++ [k]
  (s.at? path k).bind fun
    | none => s.add path k v
    | some _ =>
      if s.arrays.contains full then (s.given full).replace path k v
      else if s.onTheWay.contains full then some (s.given full)
      else none

/-- Makes the tables on the way from `done` on. -/
def makeWay (done : Path) : Path → Store → Option Store
  | [], s => some s
  | k :: rest, s =>
    (s.at? done k).bind fun
      | none => (s.add done k (.table [])).bind fun s =>
          makeWay (done ++ [k]) rest (s.passing (done ++ [k]))
      | some _ => makeWay (done ++ [k]) rest s

/-- One table at a path. -/
def openTable (s : Store) (path : Path) : Option Store := do
  let k ← path.getLast?
  (← makeWay [] path.dropLast s).put path.dropLast k (.table [])

/-- One more table under the same path. -/
def openNext (s : Store) (path : Path) : Option Store := do
  let k ← path.getLast?
  let s ← makeWay [] path.dropLast s
  match ← s.at? path.dropLast k with
  | none => s.add path.dropLast k (.tables [[]])
  | some (.tables all) => s.replace path.dropLast k (.tables (all ++ [[]]))
  | some _ => none

/-- Opens the tables that a dotted key passes through. -/
def passThrough (context : Path) : Path → Store → Option Store
  | [], s => some s
  | k :: rest, s => do
    let full := context ++ [k]
    passThrough full rest (← (s.passing full).openTable full)

end Store

end FlowRecovery.Toml

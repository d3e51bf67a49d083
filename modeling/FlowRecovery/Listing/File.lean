import FlowRecovery.Disk
import FlowRecovery.Input
import FlowRecovery.Listing.Read

/-! Listings in files, and what an observer is told of files read and written. -/
namespace FlowRecovery

inductive ListingEvent where
  | read (path : String) (routines : Nat) (fault : Option Fault)
  | written (path : String) (bytes : Nat) (fault : Option Fault)
deriving DecidableEq, Repr

namespace Listing

def missing (path : String) (f : DiskFault) : Fault :=
  match f with
  | .notFound => .codedOver .fileNotFound ("listing " ++ path) (.plain (f.onRead path))
  | _ => .within ("read " ++ path) (.plain (f.onRead path))

/-- The routines of a listing from what was found at its path, and how that is decoded. -/
def ofFile (decode : ByteArray → Option Document) (path : String) :
    Except DiskFault ByteArray → Except Fault (List Routine)
  | .error f => .error (missing path f)
  | .ok bytes => (ofDocument (decode bytes)).mapError (.within path)

def readEvent (path : String) : Except Fault (List Routine) → ListingEvent
  | .ok routines => .read path routines.length none
  | .error f => .read path 0 (some f)

end Listing

end FlowRecovery

/-! Who is told about runs and listings. At most one observer of each kind is registered at a time;
registering nobody changes nothing, and a reset forgets both. -/
namespace FlowRecovery

structure Observers (ρ ι : Type) where
  /-- Is told about runs. -/
  pipeline : Option ρ := none
  /-- Is told about listings read and results written. -/
  listing : Option ι := none
deriving DecidableEq, Repr

namespace Observers

variable {ρ ι : Type}

def setPipeline (o : Observers ρ ι) (who : Option ρ) : Observers ρ ι :=
  { o with pipeline := who.or o.pipeline }

def setListing (o : Observers ρ ι) (who : Option ι) : Observers ρ ι :=
  { o with listing := who.or o.listing }

def reset (_ : Observers ρ ι) : Observers ρ ι := {}

@[simp] theorem setPipeline_none (o : Observers ρ ι) : o.setPipeline none = o := rfl

@[simp] theorem setListing_none (o : Observers ρ ι) : o.setListing none = o := rfl

@[simp] theorem pipeline_setPipeline (o : Observers ρ ι) (who : ρ) :
    (o.setPipeline (some who)).pipeline = some who := rfl

@[simp] theorem listing_setListing (o : Observers ρ ι) (who : ι) :
    (o.setListing (some who)).listing = some who := rfl

end Observers

end FlowRecovery

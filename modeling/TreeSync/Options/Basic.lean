/-!
# Options

How fields are looked up, how list elements are built and addressed, and how
batches are applied.
-/

namespace TreeSync

/-- The options of navigation and replicas. -/
structure Options where
  /-- A field is also found under its second name. -/
  secondNames : Bool := true
  /-- A field is also found regardless of ASCII case, with `-` and `_` equal. -/
  ignoreCase : Bool := true
  /-- A record built from a key has every optional slot allocated. -/
  allocateChildren : Bool := false
  /-- A plain list key addresses by content even when it is a number. -/
  findByContent : Bool := false
  /-- The events of a batch are held back until the batch ends. -/
  bufferBatches : Bool := false
  deriving DecidableEq, Repr

end TreeSync

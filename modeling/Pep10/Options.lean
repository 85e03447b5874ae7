/-!
# Options of an assembly run
-/

namespace Pep10

/-- What the user can choose. -/
structure Options where
  /-- Whether the `.BURN` of an operating system must be at the top of memory. -/
  burnAtTop : Bool := false
  /-- How many bytes of object code are written to a line. -/
  bytesPerLine : Nat := 16
  deriving DecidableEq, Repr, Inhabited

end Pep10

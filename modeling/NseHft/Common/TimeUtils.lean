import NseHft.Lib.FixedWidth

/-!
# Session times

Timestamps are nanoseconds in the IST frame, unsigned 64 bit.
-/
namespace NseHft

open FixedWidth

def kNsPerSecond : Nat := 1000000000

def kNsPerDay : Nat := 86400 * kNsPerSecond

def istMidnightNs (istNs : Nat) : Nat := istNs / kNsPerDay * kNsPerDay

def istTimeOfDayNs (referenceIstNs hour minute second : Nat) : Nat :=
  u64 (istMidnightNs referenceIstNs + (hour * 3600 + minute * 60 + second) * kNsPerSecond)

def marketOpenNs (referenceIstNs : Nat) : Nat := istTimeOfDayNs referenceIstNs 9 15 0

def marketCloseNs (referenceIstNs : Nat) : Nat := istTimeOfDayNs referenceIstNs 15 30 0

def preopenStartNs (referenceIstNs : Nat) : Nat := istTimeOfDayNs referenceIstNs 9 0 0

/-- 15:25 IST: begin of the pre-close cancel sweep. -/
def precloseCancelNs (referenceIstNs : Nat) : Nat := istTimeOfDayNs referenceIstNs 15 25 0

def isWithinMarketHours (istNs : Nat) : Bool :=
  decide (istNs ≥ marketOpenNs istNs) && decide (istNs < marketCloseNs istNs)

def isPreopen (istNs : Nat) : Bool :=
  decide (istNs ≥ preopenStartNs istNs) && decide (istNs < marketOpenNs istNs)

end NseHft

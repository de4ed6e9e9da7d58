/-!
# Times of modification

A file carries the time of its last change, counted from the epoch.  Times before the
epoch are not represented: their seconds are read as zero.
-/

namespace ScriptBundler

/-- A time since the epoch.  The nanoseconds are less than a second. -/
structure Timestamp where
  seconds : Nat
  nanoseconds : Nat
deriving DecidableEq, Repr

namespace Timestamp

def nanosecondsPerSecond : Nat :=
  1000000000

/-- A time from any number of nanoseconds; whole seconds are carried over. -/
def ofParts (seconds nanoseconds : Nat) : Timestamp :=
  ⟨seconds + nanoseconds / nanosecondsPerSecond, nanoseconds % nanosecondsPerSecond⟩

/-- The first second that is too late to be represented. -/
def limit : Nat :=
  Nat.pow 2 63

def isRepresentable (t : Timestamp) : Bool :=
  decide (t.seconds < limit)

end Timestamp
end ScriptBundler

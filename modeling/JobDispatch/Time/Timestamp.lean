import JobDispatch.Time.Span

/-!
# Points in time

A timestamp counts nanoseconds from the start of 1970 in UTC. Only the years from −262143 to
262142 have timestamps, so a sum that leaves this range has none.
-/

namespace JobDispatch

namespace Timestamp

/-- Nanoseconds of the first point in time: the start of the year −262143. -/
def firstNanos : Int := -8334601228800000 * 1000000

/-- Nanoseconds of the last point in time: the end of the year 262142. -/
def lastNanos : Int := 8210266876800000 * 1000000 - 1

end Timestamp

structure Timestamp where
  nanos : Int
  first_le : Timestamp.firstNanos ≤ nanos
  le_last : nanos ≤ Timestamp.lastNanos
deriving DecidableEq

namespace Timestamp

def ofNanos? (n : Int) : Option Timestamp :=
  if h : firstNanos ≤ n ∧ n ≤ lastNanos then some ⟨n, h.1, h.2⟩ else none

def ofMillis? (n : Int) : Option Timestamp := ofNanos? (n * 1000000)

def epoch : Timestamp := ⟨0, by decide, by decide⟩

instance : Inhabited Timestamp := ⟨epoch⟩

instance : LE Timestamp := ⟨fun a b => a.nanos ≤ b.nanos⟩

instance : LT Timestamp := ⟨fun a b => a.nanos < b.nanos⟩

instance (a b : Timestamp) : Decidable (a ≤ b) := inferInstanceAs (Decidable (a.nanos ≤ b.nanos))

instance (a b : Timestamp) : Decidable (a < b) := inferInstanceAs (Decidable (a.nanos < b.nanos))

def add? (t : Timestamp) (delta : Int) : Option Timestamp := ofNanos? (t.nanos + delta)

/-- The nanoseconds from `earlier` to `later`, negative if they come in the other order. -/
def since (later earlier : Timestamp) : Int := later.nanos - earlier.nanos

theorem le_def {a b : Timestamp} : a ≤ b ↔ a.nanos ≤ b.nanos := Iff.rfl

theorem lt_def {a b : Timestamp} : a < b ↔ a.nanos < b.nanos := Iff.rfl

theorem ofNanos?_eq_some {n : Int} {t : Timestamp} : ofNanos? n = some t ↔ t.nanos = n := by
  unfold ofNanos?
  constructor
  · intro h
    split at h
    · cases h; rfl
    · cases h
  · intro h
    subst h
    rw [dif_pos ⟨t.first_le, t.le_last⟩]

end Timestamp

/-- The longest difference of times that the comparisons work with: 2⁶³ − 1 milliseconds. -/
def Span.deltaBound : Int := Int64.maxValue.toInt * 1000000

/-- A span as a difference of times. Longer spans count as the longest difference, which no two
timestamps reach. -/
def Span.delta (s : Span) : Int := min s.nanos Span.deltaBound

end JobDispatch

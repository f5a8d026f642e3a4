import SegmentCatalog.Schema.Vocabulary

/-! # Time units

The unit in which a time column counts.  A segment that records none counts in days.
-/

namespace SegmentCatalog

inductive TimeUnit where
  | nanoseconds | microseconds | milliseconds | seconds | minutes | hours | days
  deriving DecidableEq

namespace TimeUnit

/-- The unit of a segment that records none. -/
protected def default : TimeUnit := .days

instance : Inhabited TimeUnit := ⟨TimeUnit.default⟩

def all : List TimeUnit :=
  [.nanoseconds, .microseconds, .milliseconds, .seconds, .minutes, .hours, .days]

def name : TimeUnit → String
  | .nanoseconds => "NANOSECONDS"
  | .microseconds => "MICROSECONDS"
  | .milliseconds => "MILLISECONDS"
  | .seconds => "SECONDS"
  | .minutes => "MINUTES"
  | .hours => "HOURS"
  | .days => "DAYS"

def label : TimeUnit → String
  | .nanoseconds => "Nanoseconds"
  | .microseconds => "Microseconds"
  | .milliseconds => "Milliseconds"
  | .seconds => "Seconds"
  | .minutes => "Minutes"
  | .hours => "Hours"
  | .days => "Days"

instance : Vocabulary TimeUnit where
  kind := "time unit"
  all := all
  name := name
  label := label
  mem_all := fun t => by cases t <;> decide
  name_injective := fun s t h => by cases s <;> cases t <;> first | rfl | exact absurd h (by decide)
  upper_name := fun t => by cases t <;> rfl

end TimeUnit

end SegmentCatalog

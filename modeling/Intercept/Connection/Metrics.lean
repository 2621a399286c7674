import Intercept.Connection.Handler

/-!
# What is counted

Every connection leaves its marks in a few series of counters.

* `Series` tells a counter by what it counts, `Series.name` prints it.
* `Metrics.record` adds what a connection left behind.
* `Metrics.lines` is the printed state, in the order of the text.
-/

namespace Intercept

/-- What a counter counts. -/
inductive Series
  | bytes (d : Direction)
  | connections (path status : String)
  | durations (path : String)
  | errors (kind : String)
  | admissions (answer : Admission)
  | protocols (p : Protocol)
deriving DecidableEq, Repr

namespace Series

/-- A sample's name with its labels. -/
def labelled (name : String) (labels : List (String × String)) : String :=
  let fields := labels.map fun (k, v) => k ++ "=\"" ++ v ++ "\""
  "redirproxy_" ++ name ++ "\x7b" ++ ",".intercalate fields ++ "\x7d"

/-- The printed name of a counter. -/
def name : Series → String
  | bytes d =>
    let way := match d with
      | .toServer => "tx"
      | .toClient => "rx"
    labelled "bytes_transferred_total" [("direction", way)]
  | connections path status =>
    labelled "connections_total" [("path", path), ("status", status)]
  | durations path => labelled "connection_duration_seconds_count" [("path", path)]
  | errors kind => labelled "errors_total" [("error_type", kind)]
  | admissions answer => labelled "admission_total" [("decision", answer.label)]
  | protocols p => labelled "protocol_distribution_total" [("protocol", p.label)]

end Series

/-- The counters that were ever touched, and how many connections are being handled
(`ConnectionMetrics`). -/
structure Metrics where
  counts : List (Series × Nat) := []
  active : Int := 0

namespace Metrics

/-- The value of a counter; zero when it was never touched. -/
def get (m : Metrics) (s : Series) : Nat := ((m.counts.find? (·.1 = s)).map (·.2)).getD 0

/-- Adds to a counter, which is there afterwards even if nothing was added. -/
def add (s : Series) (n : Nat) (m : Metrics) : Metrics :=
  if m.counts.any (·.1 = s) then
    { m with counts := m.counts.map fun (t, k) => if t = s then (t, k + n) else (t, k) }
  else { m with counts := (s, n) :: m.counts }

/-- What a step is counted under (`ConnectionHandler::admit`). -/
def stepSeries : Step → Option Series
  | .checkedClient answer => some (.admissions answer)
  | .checkedDestination _ answer => some (.admissions answer)
  | .sniffed p => some (.protocols p)
  | _ => none

/-- What the end of a connection is counted under (`ConnectionHandler::handle_connection`); one that
is dropped is not counted. -/
def fateSeries : Fate → List Series
  | .ended o => [.connections o.path o.status, .durations o.path]
  | .failed e => [.connections "unknown" "failure", .errors e.kind]
  | .cancelled => []
  | .crashed => []

/-- All that a connection adds, in order. -/
def additions (r : Run) : List (Series × Nat) :=
  r.steps.filterMap (fun (_, s) => (stepSeries s).map (·, 1)) ++
    (match r.tally with
      | some t => [(.bytes .toServer, t.sent), (.bytes .toClient, t.received)]
      | none => []) ++
    (fateSeries r.fate).map (·, 1)

/-- A connection starts (`ActiveGuard::new`). -/
def enter (m : Metrics) : Metrics := { m with active := m.active + 1 }

/-- A connection is over, in whatever way (`ActiveGuard::drop`). -/
def leave (m : Metrics) : Metrics := { m with active := m.active - 1 }

/-- Adds what a connection left behind (`ConnectionHandler::handle_connection`). -/
def record (r : Run) (m : Metrics) : Metrics :=
  ((additions r).foldl (fun m (s, n) => m.add s n) m.enter).leave

/-- The printed samples in the order of the text. -/
def lines (m : Metrics) : List String :=
  let samples := ("redirproxy_connections_active " ++ toString m.active) ::
    m.counts.map fun (s, n) => s.name ++ " " ++ toString n
  samples.mergeSort fun a b => decide (a ≤ b)

end Metrics

/-- Why metrics could not be registered. -/
inductive RegistrationError
  /-- The same metrics are registered already. -/
  | duplicate
deriving DecidableEq, Repr

/-- The text of the error. -/
def RegistrationError.message : RegistrationError → String
  | duplicate => "Duplicate metrics collector registration attempted"

/-- A registry of metrics: the connection metrics, once they are registered. -/
structure MetricsRegistry where
  metrics : Option Metrics := none

namespace MetricsRegistry

/-- Registers the connection metrics (`ConnectionMetrics::new`). -/
def register (r : MetricsRegistry) : Except RegistrationError MetricsRegistry :=
  match r.metrics with
  | none => .ok ⟨some {}⟩
  | some _ => .error .duplicate

/-- Adds what a connection left behind, if there are metrics. -/
def record (run : Run) (r : MetricsRegistry) : MetricsRegistry :=
  ⟨r.metrics.map (Metrics.record run)⟩

end MetricsRegistry
end Intercept

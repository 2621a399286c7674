import Intercept.Text.Cut

/-!
# The endpoint for metrics

Metrics are served over HTTP in the text format (`TextEncoder` of `prometheus` 0.14): for every
counter its help, its type and its value.

* `Sample` is a counter, `Sample.render` its lines.
* `Endpoint.answer` is the status and body for a path.
-/

namespace Intercept

/-- A counter with its description. -/
structure Sample where
  name : Text
  help : Text
  value : Nat
deriving DecidableEq, Repr

namespace Sample

/-- A description on one line. -/
def escape (help : Text) : Text :=
  help.flatMap fun
    | '\\' => ['\\', '\\']
    | '\n' => ['\\', 'n']
    | c => [c]

/-- The lines of a counter; an empty description has none. -/
def render (s : Sample) : Text :=
  let help :=
    if s.help.isEmpty then [] else "# HELP ".toList ++ s.name ++ ' ' :: escape s.help ++ ['\n']
  help ++ "# TYPE ".toList ++ s.name ++ " counter\n".toList ++
    s.name ++ ' ' :: (toString s.value).toList ++ ['\n']

end Sample

namespace Endpoint

/-- The counters in the order of their names. -/
def render (samples : List Sample) : Text :=
  (samples.mergeSort fun a b =>
    decide (String.ofList a.name ≤ String.ofList b.name)).flatMap Sample.render

/-- The status and body for a path (`route`). -/
def answer (samples : List Sample) (path : Text) : Nat × Text :=
  if path = "/metrics".toList then (200, render samples)
  else if path = "/health".toList then (200, "ok".toList)
  else (404, "not found".toList)

end Endpoint
end Intercept

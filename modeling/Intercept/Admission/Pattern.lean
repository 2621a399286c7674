import Intercept.Net.Target
import Intercept.Text.LowerCase

/-!
# Bypass patterns

A bypass list names destinations that are dropped instead of dialed, or, as a whitelist, the only
ones that are dialed.

* `hostMatches` compares one host with one pattern: the same text, `*.d` for `d` and everything
  below it, `*s` for every host that ends in `s`.
* `BypassList.covers` compares a destination in lower case, with and without its port.
* `BypassList.contains` says whether the destination is dropped.
-/

namespace Intercept

/-- Whether a host is one that the pattern names (`matches_host_pattern`). -/
def hostMatches (host pattern : Text) : Bool :=
  if pattern = host then true
  else match pattern with
    | '*' :: '.' :: domain => endsWith host ('.' :: domain) || host = domain
    | '*' :: suffix => endsWith host suffix
    | _ => false

/-- Patterns in lower case, and whether they name what is let through. -/
structure BypassList where
  patterns : List Text
  whitelist : Bool := false

namespace BypassList

/-- The list of the given patterns, which are compared without regard to case (`BypassList::new`).
-/
def ofPatterns (patterns : List Text) (whitelist : Bool) : BypassList :=
  ⟨patterns.map Text.toLower, whitelist⟩

/-- Whether some pattern names the destination or its host (`BypassList::matches`). -/
def covers (list : BypassList) (destination : Text) : Bool :=
  let destination := Text.toLower destination
  let host := Target.host destination
  list.patterns.any fun p => p = destination || hostMatches host p

/-- Whether the destination is dropped (`BypassList::contains`). -/
def contains (list : BypassList) (destination : Text) : Bool :=
  list.covers destination != list.whitelist

end BypassList
end Intercept

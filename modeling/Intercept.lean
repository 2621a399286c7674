import Intercept.Admission.Gate
import Intercept.Admission.SharedRegistry
import Intercept.CommandLine
import Intercept.Config.Reading
import Intercept.Config.Wiring
import Intercept.Connection.Endpoint
import Intercept.Connection.Handler
import Intercept.Connection.Metrics
import Intercept.Destination.Resolver
import Intercept.Http.Exchange
import Intercept.Launch
import Intercept.Main
import Intercept.Net.Dial
import Intercept.Proofs.Admission.Answers
import Intercept.Proofs.Admission.Handout
import Intercept.Proofs.Admission.HostValue
import Intercept.Proofs.Admission.Matching
import Intercept.Proofs.Admission.Memory
import Intercept.Proofs.Admission.Pattern
import Intercept.Proofs.Admission.RateLimit
import Intercept.Proofs.Admission.Sweeping
import Intercept.Proofs.Connection.Admission
import Intercept.Proofs.Connection.Course
import Intercept.Proofs.Connection.Crash
import Intercept.Proofs.Connection.Deadline
import Intercept.Proofs.Connection.Destination
import Intercept.Proofs.Connection.Ledger
import Intercept.Proofs.Connection.Peer
import Intercept.Proofs.Connection.Transparency
import Intercept.Proofs.Destination.Entries
import Intercept.Proofs.Destination.Lookup
import Intercept.Proofs.Http.Answered
import Intercept.Proofs.Http.Chunks
import Intercept.Proofs.Http.Codings
import Intercept.Proofs.Http.Completion
import Intercept.Proofs.Http.Encoding
import Intercept.Proofs.Http.Exchange
import Intercept.Proofs.Http.Fragments
import Intercept.Proofs.Http.Heads
import Intercept.Proofs.Http.Host
import Intercept.Proofs.Http.Place
import Intercept.Proofs.Http.Upgrade
import Intercept.Proofs.Launch
import Intercept.Proofs.Net.Ip
import Intercept.Proofs.Net.RoundTrip
import Intercept.Proofs.Relay
import Intercept.Proofs.Relay.Accounts
import Intercept.Proofs.Relay.Parallel
import Intercept.Proofs.Server
import Intercept.Proofs.Sniff
import Intercept.Proofs.Sniff.Deadline
import Intercept.Proofs.Sniff.HeadLimit
import Intercept.Proofs.Sniff.Protocol
import Intercept.Proofs.Stream.Layers
import Intercept.Proofs.Stream.Reads
import Intercept.Proofs.Text.Fields
import Intercept.Proofs.Tls.Cursor
import Intercept.Proofs.Tls.Encoding
import Intercept.Proofs.Tls.Grammar
import Intercept.Proofs.Tls.Record
import Intercept.Relay
import Intercept.Server
import Intercept.Sniff
import Intercept.Stream.Duplex
import Intercept.Tls.Cursor
import Intercept.Tls.InPlace
import Intercept.Tls.Record
import Intercept.Yaml.Value

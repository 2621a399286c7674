import Intercept.Connection.Metrics
import Intercept.Proofs.Net.Ip

/-!
# One client, two addresses

On a socket that serves both families an IPv4 client shows up with an IPv4-mapped address. Whatever
asks who the client is takes it for the same one.

* `Socket.Respelling`: an IPv4 client's address, plain on one side and mapped on the other.
* `Resolver.Supplied`: the resolvers that there are.
* `Shared`, `Visit`, `Visit.handleAll`: connections one behind the other, with what they share.

Results:
* `clientHost_respelled`, `Resolver.Supplied.respelled`: the two places that use the address.
* `Handler.handle_respelled`: a connection is handled in the same way, whichever address it has.
* `Visit.handleAll_respelled`: so is every sequence of connections, and it leaves the same behind.
-/

namespace Intercept

/-- Two addresses of the same client: where they differ, one is IPv4 and the other its IPv4-mapped
form, with the same port. -/
inductive Socket.Respelling : Socket → Socket → Prop
  | same (p : Socket) : Respelling p p
  | mapped (q : Ipv4) (port : UInt16) (scope : UInt32) :
      Respelling ⟨.v4 q, port, 0⟩ ⟨.v6 (.ofIpv4 q), port, scope⟩
  | plain (q : Ipv4) (port : UInt16) (scope : UInt32) :
      Respelling ⟨.v6 (.ofIpv4 q), port, scope⟩ ⟨.v4 q, port, 0⟩

/-- The resolvers that there are. The last one covers the state table and the table that a program
prints. -/
inductive Resolver.Supplied : Resolver → Prop
  | localAddress : Supplied localAddress
  | fixed (dst : Socket) : Supplied (fixed dst)
  | fromDump (dump : Except ResolveError Text) : Supplied (fromDump dump)

theorem Resolver.supplied_stateTable (table : Text) : (stateTable table).Supplied :=
  .fromDump (.ok table)

section
variable {p p' : Socket}

/-- Behind both spellings is the same host. -/
theorem Socket.Respelling.canonical (h : Socket.Respelling p p') :
    p'.ip.canonical = p.ip.canonical := by
  cases h <;> simp [Ip.canonical]

theorem Socket.Respelling.port (h : Socket.Respelling p p') : p'.port = p.port := by
  cases h <;> rfl

theorem clientHost_respelled (h : Socket.Respelling p p') : clientHost p' = clientHost p := by
  unfold clientHost
  rw [h.canonical]

/-- Both addresses are asked about in the same bucket. -/
theorem Gate.checkClient_respelled (h : Socket.Respelling p p') (gate : Gate) (moment : Nat) :
    gate.checkClient moment p' = gate.checkClient moment p := by
  unfold checkClient
  rw [clientHost_respelled h]

/-- Both addresses are looked up alike, and an error names the same one. -/
theorem Resolver.Supplied.respelled {resolver : Resolver} (hr : resolver.Supplied)
    (h : Socket.Respelling p p') (near : Socket) : resolver p' near = resolver p near := by
  cases hr with
  | localAddress => rfl
  | fixed dst => rfl
  | fromDump dump =>
    unfold Resolver.fromDump
    rw [h.canonical, h.port]

/-- Nothing behind the resolver sees the client's address. -/
theorem Handler.route_peer (h : Handler) (gate : Gate) (limit now : Nat) (dst : Socket)
    (c : Inbound) (peer : Socket) :
    h.route gate limit now dst { c with peer := peer } = h.route gate limit now dst c := rfl

/-- **A connection is handled in the same way**, whichever of its addresses the client shows. -/
theorem Handler.handle_respelled {h : Handler} {c : Inbound} (hr : h.resolver.Supplied)
    (hp : Socket.Respelling c.peer p') (gate : Gate) (moment limit now : Nat) :
    h.handle gate moment limit now { c with peer := p' } = h.handle gate moment limit now c := by
  unfold handle
  simp only [Gate.checkClient_respelled hp, hr.respelled hp, route_peer]

end

/-! ## Connections one behind the other -/

/-- What connections share. -/
structure Shared where
  gate : Gate := {}
  metrics : Metrics := {}

/-- A connection with its circumstances. The handler is that of the moment: what a state table or a
dialer says may change from one connection to the next. -/
structure Visit where
  handler : Handler
  /-- The time on the rate limiter's clock. -/
  moment : Nat
  limit : Nat
  now : Nat
  inbound : Inbound

namespace Visit

/-- Handles a connection. -/
def handle (v : Visit) (s : Shared) : Run × Shared :=
  let run := v.handler.handle s.gate v.moment v.limit v.now v.inbound
  (run, ⟨run.gate, s.metrics.record run⟩)

/-- Handles connections in the order in which the gate is asked about their clients. -/
def handleAll : List Visit → Shared → List Run × Shared
  | [], s => ([], s)
  | v :: visits, s =>
    let (run, s) := v.handle s
    let (runs, s) := handleAll visits s
    (run :: runs, s)

/-- The same connection, with the client's address spelled in one way or the other. -/
structure Respelled (v v' : Visit) : Prop where
  peer : Socket.Respelling v.inbound.peer v'.inbound.peer
  eq : v' = { v with inbound := { v.inbound with peer := v'.inbound.peer } }

theorem Respelled.handle {v v' : Visit} (h : Respelled v v') (hr : v.handler.resolver.Supplied)
    (s : Shared) : v'.handle s = v.handle s := by
  rw [h.eq]
  unfold Visit.handle
  simp only [Handler.handle_respelled hr h.peer]

/-- **An IPv4 client is the same client under its mapped address.** Connections that differ in
nothing but how their clients' addresses are spelled come to the same runs: the same outcomes and
errors, the same steps with their targets and answers, the same bytes on both sides. And they leave
the same behind: the same tracked hosts in the gate, the same metrics. -/
theorem handleAll_respelled {visits visits' : List Visit}
    (hr : ∀ v ∈ visits, v.handler.resolver.Supplied)
    (h : List.Forall₂ Respelled visits visits') (s : Shared) :
    handleAll visits' s = handleAll visits s := by
  induction h generalizing s with
  | nil => rfl
  | cons hv _ ih =>
    unfold handleAll
    rw [hv.handle (hr _ (by simp))]
    simp only [ih fun v hm => hr v (by simp [hm])]

/-- A client comes back under its other address: it is looked up under its plain address both times,
and the second time it is over the limit that it used up the first time. -/
theorem handleAll_respelled_twice :
    let handler : Handler :=
      { resolver := .stateTable []
        dialer := fun _ target => { delay := 0, result := .error (.timeout target) }
        turns := fun _ => .toServer }
    let plain : Socket := ⟨.v4 ⟨10, 0, 0, 1⟩, 4000, 0⟩
    let visit (peer : Socket) (now : Nat) : Visit :=
      { handler := handler, moment := now, limit := 60000, now := now
        inbound := { peer := peer, near := plain, input := .ofSource { start := now } } }
    let mapped : Socket := ⟨.v6 (.ofIpv4 ⟨10, 0, 0, 1⟩), 4000, 0⟩
    let s : Shared := { gate := { registry := Registry.ofRate 1 none [] } }
    let done := handleAll [visit mapped 10, visit plain 20] s
    done = handleAll [visit plain 10, visit plain 20] s ∧
      done.1.map (·.fate) = [.failed (.resolve (.noMatch plain)), .ended .rateLimited] ∧
      done.2.gate.registry.map (·.hosts.length) = some 1 := by
  intro handler plain visit mapped s done
  have hdone : done = handleAll [visit plain 10, visit plain 20] s :=
    handleAll_respelled (by simp [visit, handler, Resolver.supplied_stateTable])
      (.cons ⟨.mapped ⟨10, 0, 0, 1⟩ 4000 0, rfl⟩ (.cons ⟨.same _, rfl⟩ .nil)) s
  refine ⟨hdone, ?_, ?_⟩
  · decide +kernel
  · decide +kernel

end Visit
end Intercept

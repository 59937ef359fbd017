import PooledSql.Proofs.Pool.Exchange

/-!
# Critical sections

`Section` lists everything that happens to a pool at once: its critical sections, and the actions
that leave its outbox to be performed. `Section.run` is the change of the pool. A section takes
tokens from the one who brings it about, `Section.takes`, and hands him others, `Section.gives`;
`Section.Ready` is what it relies on.
-/

namespace PooledSql

/-- Something that happens to a pool at once. -/
inductive Section (ρ : Type) where
  | start
  | request (now : Instant) (call : CallId) (priority : Nat)
  /-- A request is taken out of the queue at its deadline. -/
  | withdraw (handle : QueueHandle) (timeout : Duration)
  | forget (handle : QueueHandle)
  /-- The answer to a request is received, or not awaited any more. -/
  | hangUp (call : CallId)
  | giveBack (now : Instant) (sample : Duration) (lease : Lease ρ)
  | discard (lease : Lease ρ)
  | reclaim (now : Instant) (sample : Duration) (lease : Lease ρ)
  | creationEnded (now : Instant) (made : Option ρ)
  | validationEnded (now : Instant) (pooled : Pooled ρ) (valid : Bool)
  | destructionEnded (succeeded : Bool)
  | evict (now : Instant)
  | purge
  | beginDrain
  | sweep
  | setRecycling (recycling : Option RecyclingConfig)
  /-- An action between others leaves the outbox and its task is started. -/
  | launch (before : List (Action ρ)) (action : Action ρ) (after : List (Action ρ))
  /-- An action leaves the outbox but its task cannot be started. -/
  | abandon (before : List (Action ρ)) (action : Action ρ) (after : List (Action ρ))
  /-- A lease leaves the outbox: it is delivered, or comes back if nobody awaits it. -/
  | deliver (now : Instant) (sample : Duration) (before : List (Action ρ)) (call : CallId)
      (lease : Lease ρ) (after : List (Action ρ))

variable {ρ : Type}

/-- The resource of an action whose task cannot be started. -/
def Action.lost : Action ρ → List (Nat × ρ)
  | .validate x | .destroy x => [x.item]
  | .evict | .create | .deliver _ _ => []

namespace Section

/-- The pool afterwards. -/
def run (p : Pool ρ) : Section ρ → Pool ρ
  | .start => p.start
  | .request now call priority => (p.request now call priority).2
  | .withdraw handle timeout => p.withdraw handle timeout
  | .forget handle => p.forget handle
  | .hangUp call => (p.hangUp call).2
  | .giveBack now sample lease => (p.giveBack now sample lease).2
  | .discard lease => (p.discard lease).2
  | .reclaim now sample lease => p.reclaim now sample lease
  | .creationEnded now made => p.creationEnded now made
  | .validationEnded now pooled valid => p.validationEnded now pooled valid
  | .destructionEnded succeeded => p.destructionEnded succeeded
  | .evict now => p.evict now
  | .purge => p.purge
  | .beginDrain => p.beginDrain
  | .sweep => p.sweep
  | .setRecycling recycling => p.setRecycling recycling
  | .launch before _ after => { p with outbox := before ++ after }
  | .abandon before action after => ({ p with outbox := before ++ after } : Pool ρ).abandon action
  | .deliver now sample before call lease after =>
    match ({ p with outbox := before ++ after } : Pool ρ).deliver call lease with
    | (none, p) => p
    | (some lease, p) =>
      let reclaimed := { p with outbox := [] }.reclaim now sample lease
      { reclaimed with outbox := reclaimed.outbox ++ p.outbox }

/-- The tokens that go into the pool. -/
def takes (p : Pool ρ) : Section ρ → List (Token ρ)
  | .giveBack _ _ lease | .discard lease | .reclaim _ _ lease => [.lease lease.item]
  | .creationEnded _ made => .creation :: made.toList.map fun r => .resource (p.nextResource, r)
  | .validationEnded _ pooled _ => [.resource pooled.item, .validation]
  | .destructionEnded _ => [.destruction]
  | _ => []

/-- The tokens that come out of the pool. -/
def gives (p : Pool ρ) : Section ρ → List (Token ρ)
  | .hangUp call => (p.hangUp call).1.toList.map fun l => .lease l.item
  | .giveBack now sample lease =>
    match (p.giveBack now sample lease).1 with
    | .ok (some x) => [.resource x.item, .destruction]
    | _ => []
  | .discard lease =>
    match (p.discard lease).1 with
    | .ok x => [.resource x.item, .destruction]
    | _ => []
  | .launch _ action _ => action.tokens
  | .abandon _ action _ => action.lost.map .resource
  | _ => []

/-- The task of an action could not be started. -/
def abandons : Section ρ → Bool
  | .abandon _ _ _ => true
  | _ => false

/-- What has to hold of the pool. -/
def Ready (p : Pool ρ) : Section ρ → Prop
  | .request _ call _ => call ∉ p.calls.keys
  | .giveBack _ _ lease | .discard lease | .reclaim _ _ lease => lease.id ∈ p.loans.keys
  | .creationEnded _ _ => 0 < p.creating
  | .validationEnded _ pooled _ =>
    0 < p.validating ∧ (∀ n, p.tally [pooled.id] n ≤ 1) ∧ pooled.id < p.nextResource
  | .destructionEnded _ => 0 < p.destroying
  | .launch before action after => p.outbox = before ++ action :: after ∧ action.leases = []
  | .abandon before action after => p.outbox = before ++ action :: after ∧ action.leases = [] ∧
    action.tokens.countP Account.creations.covers ≤ p.creating ∧
    action.tokens.countP Account.validations.covers ≤ p.validating ∧
    action.tokens.countP Account.destructions.covers ≤ p.destroying
  | .deliver _ _ before call lease after => p.outbox = before ++ .deliver call lease :: after ∧
    lease.id ∈ p.loans.keys ∧ lease.pool = p.id
  | _ => True

end Section

end PooledSql

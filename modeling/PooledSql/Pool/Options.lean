import PooledSql.Json.Reader
import PooledSql.Pool.Config
import PooledSql.Pool.Error
import PooledSql.Pool.Recycling

/-!
# Pool options

Options are the written form of a configuration: a JSON object, or an array with one entry for
each option in their order. An option that is absent or null has its default. Fields with other
names are ignored whatever they hold, so a text with such fields need not be a document that
`Json.parse` reads; only its grammar is asked for there.
-/

namespace PooledSql

/-- A configuration as it is written; times are in milliseconds. -/
structure PoolOptions where
  min : Option Nat := none
  max : Option Nat := none
  maxWaitingClients : Option Nat := none
  testOnBorrow : Option Bool := none
  acquireTimeoutMillis : Option Nat := none
  destroyTimeoutMillis : Option Nat := none
  fifo : Option Bool := none
  priorityRange : Option Nat := none
  autostart : Option Bool := none
  evictionRunIntervalMillis : Option Nat := none
  numTestsPerEvictionRun : Option Nat := none
  /-- A negative number is no limit. -/
  softIdleTimeoutMillis : Option Int := none
  idleTimeoutMillis : Option Nat := none
  recycleTimeout : Option Nat := none
  recycleJitter : Option Nat := none
  deriving DecidableEq, Repr

namespace PoolOptions

/-- The names of the options in their order. -/
def names : List String :=
  ["min", "max", "maxWaitingClients", "testOnBorrow", "acquireTimeoutMillis",
    "destroyTimeoutMillis", "fifo", "priorityRange", "autostart", "evictionRunIntervalMillis",
    "numTestsPerEvictionRun", "softIdleTimeoutMillis", "idleTimeoutMillis", "recycleTimeout",
    "recycleJitter"]

/-- An entry is optional: nothing when it is absent or null, else what `read` makes of it. -/
def entry {α : Type} (read : Json.Draft → Option α) : Option Json.Draft → Option (Option α)
  | none | some .null => some none
  | some d => (read d).map some

def bool? : Json.Draft → Option Bool
  | .bool b => some b
  | _ => none

/-- A whole number within a range. -/
def integer? (range : IntRange) : Json.Draft → Option Int
  | .number n =>
    match n.value? with
    | some (.int i) => if i ∈ range then some i else none
    | _ => none
  | _ => none

/-- A whole number of sixty-four bits without a sign. -/
def count? (d : Json.Draft) : Option Nat := (integer? .uint64 d).map (·.toNat)

/-- The options from the entries by name. -/
def ofEntries (find : String → Option Json.Draft) : Option PoolOptions := do
  return {
    min := ← entry count? (find "min")
    max := ← entry count? (find "max")
    maxWaitingClients := ← entry count? (find "maxWaitingClients")
    testOnBorrow := ← entry bool? (find "testOnBorrow")
    acquireTimeoutMillis := ← entry count? (find "acquireTimeoutMillis")
    destroyTimeoutMillis := ← entry count? (find "destroyTimeoutMillis")
    fifo := ← entry bool? (find "fifo")
    priorityRange := ← entry count? (find "priorityRange")
    autostart := ← entry bool? (find "autostart")
    evictionRunIntervalMillis := ← entry count? (find "evictionRunIntervalMillis")
    numTestsPerEvictionRun := ← entry count? (find "numTestsPerEvictionRun")
    softIdleTimeoutMillis := ← entry (integer? .int64) (find "softIdleTimeoutMillis")
    idleTimeoutMillis := ← entry count? (find "idleTimeoutMillis")
    recycleTimeout := ← entry count? (find "recycleTimeout")
    recycleJitter := ← entry count? (find "recycleJitter") }

/-- The options in a draft. An option may be written only once. -/
def ofDraft : Json.Draft → Option PoolOptions
  | .object fields => do
    let fields ← fields.mapM fun (codes, d) => do return (← Json.text? codes, d)
    let known := fields.filter fun (name, _) => names.contains name
    if (known.map (·.1)).Nodup then ofEntries (fun name => known.lookup name) else none
  | .array items =>
    if items.length = names.length then ofEntries (fun name => (names.zip items).lookup name)
    else none
  | _ => none

/-- The options that a text holds. -/
def parse (text : String) : Except PoolError PoolOptions :=
  match (Json.Draft.read text.toList).bind ofDraft with
  | some options => .ok options
  | none => .error .config

/-- A negative limit is none. -/
def softLimit (millis : Int) : Option Duration :=
  if millis < 0 then none else some (Duration.ofMillis millis.toNat)

/-- The configuration of these options. -/
def toConfig (o : PoolOptions) : PoolConfig :=
  let defaults : PoolConfig := {}
  { min := o.min.getD defaults.min
    max := o.max.getD defaults.max
    maxWaiting := o.maxWaitingClients
    testOnBorrow := o.testOnBorrow.getD defaults.testOnBorrow
    acquireTimeout := o.acquireTimeoutMillis.map Duration.ofMillis
    destroyTimeout := o.destroyTimeoutMillis.map Duration.ofMillis
    fifo := o.fifo.getD defaults.fifo
    priorityRange := o.priorityRange.getD defaults.priorityRange
    autostart := o.autostart.getD defaults.autostart
    evictionInterval :=
      (o.evictionRunIntervalMillis.map Duration.ofMillis).getD defaults.evictionInterval
    testsPerEviction := o.numTestsPerEvictionRun.getD defaults.testsPerEviction
    softIdleTimeout := o.softIdleTimeoutMillis.bind softLimit
    idleTimeout := (o.idleTimeoutMillis.map Duration.ofMillis).getD defaults.idleTimeout }

/-- The age limits of these options. -/
def toRecycling (o : PoolOptions) : RecyclingConfig :=
  ⟨o.recycleTimeout.map Duration.ofMillis, (o.recycleJitter.map Duration.ofMillis).getD 0⟩

/-- The age limits, if there is one. -/
def recycling? (o : PoolOptions) : Option RecyclingConfig :=
  if o.recycleTimeout.isSome then some o.toRecycling else none

end PoolOptions

/-- The configuration that a text holds. -/
def PoolConfig.parse (text : String) : Except PoolError PoolConfig :=
  (PoolOptions.parse text).map PoolOptions.toConfig

end PooledSql

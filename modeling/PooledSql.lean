import PooledSql.Json.Printer
import PooledSql.Json.Reader
import PooledSql.Time.Duration
import PooledSql.Time.Timestamp
import PooledSql.Sql.Template
import PooledSql.Value.ToValue
import PooledSql.Collections.Cursor
import PooledSql.Collections.Deferred
import PooledSql.Collections.PriorityQueue
import PooledSql.Collections.Registry
import PooledSql.Pool.Options
import PooledSql.Pool.Eviction
import PooledSql.Pool.Stats
import PooledSql.Client.Row
import PooledSql.Pool.Borrowing
import PooledSql.Pool.Upkeep
import PooledSql.Pool.Shutdown
import PooledSql.Simulation.Run
import PooledSql.Proofs.Client.Reading
import PooledSql.Proofs.Collections.Roll
import PooledSql.Proofs.Collections.Cursor
import PooledSql.Proofs.Collections.Deferred
import PooledSql.Proofs.Collections.Slots
import PooledSql.Proofs.Collections.Tour
import PooledSql.Proofs.Collections.PriorityQueue
import PooledSql.Proofs.Collections.Registry
import PooledSql.Proofs.Pool.Inventory
import PooledSql.Proofs.Pool.Admission
import PooledSql.Proofs.Pool.Checked
import PooledSql.Proofs.Pool.Closing
import PooledSql.Proofs.Pool.Minimum
import PooledSql.Proofs.Pool.Orders
import PooledSql.Proofs.Pool.Passage
import PooledSql.Proofs.Pool.Precedence
import PooledSql.Proofs.Pool.Settled
import PooledSql.Proofs.Simulation.Accounts
import PooledSql.Proofs.Simulation.Acquisition
import PooledSql.Proofs.Simulation.Aftermath
import PooledSql.Proofs.Simulation.Audit
import PooledSql.Proofs.Simulation.Capacity
import PooledSql.Proofs.Simulation.Chronicle
import PooledSql.Proofs.Simulation.Closing
import PooledSql.Proofs.Simulation.Destruction
import PooledSql.Proofs.Simulation.Ownership
import PooledSql.Proofs.Simulation.Errands
import PooledSql.Proofs.Simulation.Eviction
import PooledSql.Proofs.Simulation.Figures
import PooledSql.Proofs.Simulation.IdleOrder
import PooledSql.Proofs.Simulation.Finality
import PooledSql.Proofs.Simulation.Lenders
import PooledSql.Proofs.Simulation.Provision
import PooledSql.Proofs.Simulation.Recycling
import PooledSql.Proofs.Simulation.Shutdown
import PooledSql.Proofs.Simulation.Stranding
import PooledSql.Proofs.Simulation.Waking
import PooledSql.Proofs.Sql.Binding
import PooledSql.Proofs.Sql.Braces
import PooledSql.Proofs.Sql.Composition
import PooledSql.Proofs.Sql.Encoding
import PooledSql.Proofs.Sql.Faults
import PooledSql.Proofs.Sql.Quoting

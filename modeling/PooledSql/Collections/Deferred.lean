/-!
# Deferred results

A `Deferred` joins two halves: one settles it with a value or an error, the other awaits the
message. It is settled at most once. A message that was sent before the awaiting half was closed
can still be received, once. `Deferred.play` runs any sequence of moves of the two halves.
-/

namespace PooledSql

/-- What has become of a deferred result. -/
inductive Deferred.Status where
  | pending
  | fulfilled
  /-- Settled with an error, or offered a value that nobody awaited. -/
  | rejected
  deriving DecidableEq, Repr

/-- The settling half. -/
inductive Deferred.Settling where
  | ready
  | used
  | dropped
  deriving DecidableEq, Repr

/-- The awaiting half. -/
inductive Deferred.Awaiting where
  | open
  /-- It takes no new message but still one that was sent before. -/
  | closed
  | dropped
  deriving DecidableEq, Repr

/-- A result that is settled once, at some later time. -/
structure Deferred (ε α : Type) where
  status : Deferred.Status := .pending
  settling : Deferred.Settling := .ready
  awaiting : Deferred.Awaiting := .open
  /-- A message that was sent and not received yet. -/
  message : Option (Except ε α) := none

/-- The answer to a look for the message. -/
inductive Deferred.Receipt (ε α : Type) where
  | message (m : Except ε α)
  /-- Nothing yet. -/
  | nothing
  /-- Nothing any more. -/
  | closed

namespace Deferred

variable {ε α : Type}

/-- It is not settled and somebody still awaits it. -/
def isPending (d : Deferred ε α) : Bool :=
  d.status == .pending && d.settling == .ready && d.awaiting == .open

/-- Settle with a value. The value comes back if that was done before or nobody awaits it. -/
def resolve (d : Deferred ε α) (value : α) : Option α × Deferred ε α :=
  if d.settling ≠ .ready then (some value, d)
  else if d.awaiting = .open then
    (none, { d with status := .fulfilled, settling := .used, message := some (.ok value) })
  else (some value, { d with status := .rejected, settling := .used })

/-- Settle with an error; whether somebody will learn of it. -/
def reject (d : Deferred ε α) (error : ε) : Bool × Deferred ε α :=
  if d.settling ≠ .ready then (false, d)
  else if d.awaiting = .open then
    (true, { d with status := .rejected, settling := .used, message := some (.error error) })
  else (false, { d with status := .rejected, settling := .used })

/-- Receive the message, if it is there. -/
def tryReceive (d : Deferred ε α) : Receipt ε α × Deferred ε α :=
  match d.message with
  | some m => (.message m, { d with message := none })
  | none => (if d.settling = .ready ∧ d.awaiting = .open then .nothing else .closed, d)

/-- Take no new message from now on. -/
def close (d : Deferred ε α) : Deferred ε α :=
  if d.awaiting = .open then { d with awaiting := .closed } else d

/-- Give up the awaiting half, and the message with it. -/
def dropAwaiting (d : Deferred ε α) : Deferred ε α :=
  { d with awaiting := .dropped, message := none }

/-- Give up the settling half; without a message there will never be one. -/
def dropSettling (d : Deferred ε α) : Deferred ε α := { d with settling := .dropped }

/-! ## Moves -/

/-- What the owner of one of the halves can do. -/
inductive Move (ε α : Type) where
  | resolve (value : α)
  | reject (error : ε)
  | tryReceive
  | close
  | dropAwaiting
  | dropSettling

/-- What a move is answered with. -/
inductive Answer (ε α : Type) where
  /-- The value was taken. -/
  | taken
  | back (value : α)
  | rejected (heard : Bool)
  | receipt (r : Receipt ε α)
  | closed
  /-- Whether there was a half to give up. -/
  | dropped (held : Bool)
  /-- The half that should make the move has been given up. -/
  | gone

/-- Make a move. -/
def play (d : Deferred ε α) : Move ε α → Answer ε α × Deferred ε α
  | .resolve value =>
    if d.settling = .dropped then (.gone, d)
    else match d.resolve value with
      | (none, d) => (.taken, d)
      | (some value, d) => (.back value, d)
  | .reject error =>
    if d.settling = .dropped then (.gone, d)
    else match d.reject error with
      | (heard, d) => (.rejected heard, d)
  | .tryReceive =>
    if d.awaiting = .dropped then (.gone, d)
    else match d.tryReceive with
      | (r, d) => (.receipt r, d)
  | .close => (.closed, d.close)
  | .dropAwaiting => (.dropped (d.awaiting != .dropped), d.dropAwaiting)
  | .dropSettling => (.dropped (d.settling != .dropped), d.dropSettling)

end Deferred

end PooledSql

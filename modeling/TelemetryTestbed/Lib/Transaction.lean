import Mathlib.Data.List.Basic

/-!
# One SQL connection that appends rows

What a writer sees of its database connection: the rows that are committed and,
while a transaction is open, the rows inserted in it. Every statement takes what
the environment answers and returns whether it succeeded. `BEGIN` fails inside a
transaction; outside one an `INSERT` commits by itself; an `INSERT` may fail alone
or take the whole transaction with it; a `COMMIT` that is busy leaves the
transaction open.

The answers follow the documentation of SQLite in journal mode with one writer; which of them
a real database gives, and why, is left open, so a property of a program has to hold for all
of them. The rows of a rolled back transaction are gone.
-/

namespace TelemetryTestbed.Lib

variable {α : Type*}

/-- A connection: the rows that are committed, and those of the transaction if one is open. -/
structure Conn (α : Type*) where
  committed : List α
  /-- The rows of the open transaction. -/
  tx : Option (List α)

/-- What the database answers to an `INSERT`. -/
inductive InsertAnswer
  | ok
  | failAlone
  /-- The failure rolls the transaction back. -/
  | failRollback
  deriving DecidableEq

/-- What the database answers to a `COMMIT`. -/
inductive CommitAnswer
  | ok
  /-- The transaction stays open. -/
  | busy
  | rolledBack
  deriving DecidableEq

namespace Conn

def begin (c : Conn α) (answer : Bool) : Conn α × Bool :=
  if answer ∧ c.tx = none then ({ c with tx := some [] }, true) else (c, false)

def insert (c : Conn α) (row : α) : InsertAnswer → Conn α × Bool
  | .ok =>
    match c.tx with
    | none => ({ c with committed := c.committed ++ [row] }, true)
    | some rows => ({ c with tx := some (rows ++ [row]) }, true)
  | .failAlone => (c, false)
  | .failRollback => ({ c with tx := none }, false)

def commit (c : Conn α) (answer : CommitAnswer) : Conn α × Bool :=
  match c.tx, answer with
  | none, _ => (c, false)
  | some rows, .ok => ({ committed := c.committed ++ rows, tx := none }, true)
  | some _, .busy => (c, false)
  | some _, .rolledBack => ({ c with tx := none }, false)

/-- Whatever it returns, no transaction is open after it. -/
def rollback (c : Conn α) : Conn α := { c with tx := none }

end Conn

end TelemetryTestbed.Lib

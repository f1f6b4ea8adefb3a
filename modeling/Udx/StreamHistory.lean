import Udx.Lib.Runs
import Udx.Stream

set_option autoImplicit false

namespace Udx

/-- What one `Read` hands to the application. -/
def ReadResult.returned : ReadResult → List UInt8
  | .data bytes => bytes
  | _ => []

namespace Stream

/-- A stream nothing has reached yet, on the side that opened it or the side
that accepted it. -/
def fresh (id remoteID : UInt32) (fc : StreamFlowController) (accepted : Bool) : Stream :=
  { newStream id remoteID fc with state := if accepted then .opened else .idle }

/-- What the application and the peer do to a stream. A `write` is a batch the
connection has granted, with what its writer asked for; a connection that closes
delivers a reset. -/
inductive Op where
  | write (ask : Ask) (granted remaining : Nat)
  | close
  | reset (errorCode : UInt32)
  | deliverData (offset : UInt64) (data : List UInt8)
  | deliverFin (finalSize : UInt64)
  | deliverReset (errorCode : UInt32)
  | windowUpdate (wire : UInt32)
  | read (size : Nat) (expired : Bool)

def Op.isClose : Op → Bool
  | .close => true
  | _ => false

def Op.isFin : Op → Bool
  | .deliverFin _ => true
  | _ => false

def apply (s : Stream) : Op → Stream
  | .write ask granted remaining =>
    match s.writeCommit ask granted remaining with
    | some (s, _) => s
    | none => s
  | .close => s.close.1
  | .reset code => (s.reset code).1
  | .deliverData offset data => (s.deliverData offset.toNat data).1
  | .deliverFin finalSize => s.deliverFin finalSize.toNat
  | .deliverReset code => s.deliverReset code
  | .windowUpdate wire => s.onWindowUpdate wire
  | .read size expired => (s.read size expired).1

/-- Every byte up to the announced end has been delivered. -/
def complete (s : Stream) : Bool := s.finSeen && decide (s.finalSize ≤ s.recvOffset)

/-- What the operation hands to the application. -/
def returns (s : Stream) : Op → List UInt8
  | .read size expired => (s.read size expired).2.1.returned
  | _ => []

/-- A stream with what has happened to it: the application closed it, a FIN of the
peer's came, it was complete, and what all reads returned. -/
structure Lived where
  stream : Stream
  closed : Bool := false
  ended : Bool := false
  completed : Bool := false
  returned : List UInt8 := []

namespace Lived

/-- The stream after an operation, with its history. -/
def after (h : Lived) (op : Op) : Lived where
  stream := h.stream.apply op
  closed := h.closed || op.isClose
  ended := h.ended || op.isFin
  completed := h.completed || (h.stream.apply op).complete
  returned := h.returned ++ h.stream.returns op

def step (h : Lived) (op : Op) : Option Lived := some (h.after op)

def run (h : Lived) (ops : List Op) : Lived := ops.foldl after h

theorem run_append (h : Lived) (ops : List Op) (op : Op) :
    h.run (ops ++ [op]) = (h.run ops).after op := by
  rw [run, List.foldl_append]
  rfl

end Lived

end Stream

end Udx

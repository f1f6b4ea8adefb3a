import Mathlib.Data.List.Pairwise
import Udx.Lib.Locks

set_option autoImplicit false

/- The locks a connection's goroutines take. Each operation is the critical
sections its code enters, in order, with its branches and loops; a wait on a
condition variable releases the lock and takes it again. -/

namespace Udx

open Locks (Code Thread Nested NestedThread)

/-- The locks of one connection. `closeOnce` holds its lock while it runs. -/
inductive LockOrder.Lock where
  | closeOnce
  | conn
  | ack
  | lost
  | sendCredit
  | pm
  | cc
  | pacer
  | mtu
  | fc
  | stream (id : Nat)
  | streamFC (id : Nat)
deriving DecidableEq

/-- The critical sections. Loss detection's and the congestion event's stand
for themselves; every other section is named after its lock. -/
inductive LockOrder.Section where
  | plain (l : LockOrder.Lock)
  | detectLost
  | congestionEvent
deriving DecidableEq

def LockOrder.Section.lock : LockOrder.Section → LockOrder.Lock
  | .plain l => l
  | .detectLost => .pm
  | .congestionEvent => .cc

namespace LockOrder

/-- A section that takes no other lock. -/
def brief (l : Lock) : Code Section := .critical (.plain l) .skip

def within (l : Lock) (body : Code Section) : Code Section := .critical (.plain l) body

def optional (body : Code Section) : Code Section := .choose body .skip

def inOrder (codes : List (Code Section)) : Code Section := codes.foldr .seq .skip

def oneOf (codes : List (Code Section)) : Code Section := codes.foldr .choose .skip

/-- `OnPacketAcked` and `OnPersistentCongestion`, which end in
`updatePacingRate`. -/
def repace : Code Section := within .cc (optional (brief .pacer))

/-- The callback `NewConnection` gives the controller for the last sent
sequence. -/
def lastSentSeqFn : Code Section := within .conn (optional (brief .pm))

def onCongestionEvent : Code Section :=
  .critical .congestionEvent
    (optional (inOrder [optional lastSentSeqFn, optional (brief .pacer)]))

def onPacketLost : Code Section := inOrder [brief .cc, onCongestionEvent]

def peerAddr : Code Section := brief .conn

def sendPacket : Code Section :=
  inOrder [optional (brief .pm), optional (inOrder [brief .pm, brief .cc]), brief .conn,
    optional peerAddr]

def retransmitPacket : Code Section := inOrder [brief .conn, optional peerAddr]

def prepareDataPacket : Code Section :=
  inOrder [brief .pm, brief .pm, brief .cc, brief .pacer, brief .conn]

def sendStreamFrames : Code Section := inOrder [.loop prepareDataPacket, optional peerAddr]

def fitToPath : Code Section := inOrder [brief .mtu, optional (brief .pm)]

def probeMTU : Code Section :=
  inOrder [brief .cc, optional (inOrder [brief .mtu,
    optional (inOrder [brief .pm, brief .pm, brief .conn, optional peerAddr])])]

def flushLost : Code Section :=
  within .lost (.loop (optional (inOrder [brief .mtu, optional fitToPath,
    optional (inOrder [brief .pacer, optional (inOrder [brief .cc, optional (inOrder [brief .pm,
      optional (inOrder [brief .cc, brief .pacer, retransmitPacket])])])])])))

def onPacketsLost : Code Section :=
  inOrder [.loop (brief .mtu), optional (inOrder [onPacketLost, brief .cc,
    optional (inOrder [brief .cc, optional (inOrder [brief .pm, optional repace])]),
    brief .lost, flushLost])]

/-- Loss detection reads the RTT under the packet manager's lock
(`lossDelay`). -/
def detectLostPackets : Code Section :=
  inOrder [.critical .detectLost (optional (inOrder [brief .cc, brief .cc])),
    optional onPacketsLost]

def onPTO : Code Section :=
  inOrder [brief .cc, optional (brief .mtu), brief .pm,
    .loop (inOrder [fitToPath, .loop (inOrder [brief .pm,
      optional (inOrder [retransmitPacket, brief .pacer])])])]

def onPtoTimeout : Code Section := inOrder [brief .cc, optional onPTO, brief .cc]

def awaitSendCredit : Code Section :=
  let check := within .sendCredit (optional (inOrder [brief .pacer, optional (brief .cc)]))
  inOrder [.loop check, check]

/-- What `Write` does between taking the stream's lock and letting it go:
consult the peer's limit, and size the next batch. -/
def writeTurn (i : Nat) : Code Section :=
  let credit := .loop (brief (.streamFC i))
  within (.stream i) (inOrder [credit, optional (inOrder [brief .mtu, credit])])

/-- Between two turns the writer reports that it is blocked, waits to be woken,
waits for the congestion window, or sends a batch. -/
def write (i : Nat) : Code Section :=
  inOrder [writeTurn i,
    .loop (inOrder [
      oneOf [sendPacket, inOrder [awaitSendCredit, optional (brief .cc)], sendStreamFrames],
      writeTurn i])]

def read (i : Nat) : Code Section :=
  inOrder [.loop (brief (.stream i)), within (.stream i) (optional (brief (.streamFC i))),
    optional (inOrder [brief (.streamFC i), sendPacket])]

/-- `Close`, `CloseWrite` and `Reset`. -/
def shut (i : Nat) : Code Section := inOrder [brief (.stream i), optional sendPacket]

def deliverData (i : Nat) : Code Section :=
  inOrder [within (.stream i) (optional (brief (.streamFC i))), optional (shut i)]

/-- The teardown of a connection with the given streams. -/
def closeInternal (streams : List Nat) : Code Section :=
  within .closeOnce (optional (inOrder [brief .conn, brief .ack, optional sendPacket, brief .conn,
    inOrder (streams.map fun i => brief (.stream i)), brief .sendCredit, brief .lost, brief .cc,
    brief .pm]))

def handleAckFrame : Code Section :=
  inOrder [brief .pm, optional (inOrder [.loop (brief .mtu), repace, detectLostPackets, flushLost,
    probeMTU])]

def handleStreamFrame (i : Nat) : Code Section :=
  inOrder [brief .conn, optional (deliverData i), optional (brief (.stream i))]

/-- One frame of a packet for stream `i`. -/
def handleFrame (i : Nat) (streams : List Nat) : Code Section :=
  oneOf [handleStreamFrame i, handleAckFrame,
    -- WINDOW_UPDATE
    inOrder [brief .conn, optional (within (.stream i) (brief (.streamFC i)))],
    -- MAX_DATA, and DATA_BLOCKED with its answer
    inOrder [brief .fc, optional sendPacket],
    -- RESET_STREAM and STOP_SENDING
    inOrder [brief .conn, optional (shut i)],
    closeInternal streams,
    -- PATH_CHALLENGE, PATH_RESPONSE and MAX_STREAMS
    sendPacket, brief .conn,
    -- STREAM_DATA_BLOCKED
    inOrder [brief .conn, optional (inOrder [brief (.streamFC i), sendPacket])]]

def noteReceived : Code Section := inOrder [within .ack (optional (brief .cc)), optional sendPacket]

def handlePacket (i : Nat) (streams : List Nat) : Code Section :=
  inOrder [brief .conn, .loop (handleFrame i streams), optional noteReceived]

def ackTimerFired : Code Section := inOrder [brief .ack, optional sendPacket]

def onIdleCheck (streams : List Nat) : Code Section :=
  inOrder [brief .cc, brief .conn, .choose (closeInternal streams) (brief .conn)]

/-- What a goroutine of the connection, a timer or the application runs. -/
inductive Operation where
  | handlePacket (i : Nat) (streams : List Nat)
  | lossTimer
  | ptoTimer
  | ackTimer
  | flushLost
  | write (i : Nat)
  | read (i : Nat)
  | shut (i : Nat)
  | wakeStream (i : Nat)
  | wakeSendCredit
  | idleCheck (streams : List Nat)
  | close (streams : List Nat)
  | openStream
  | control

def program : Operation → Code Section
  | .handlePacket i streams => handlePacket i streams
  | .lossTimer => detectLostPackets
  | .ptoTimer => onPtoTimeout
  | .ackTimer => ackTimerFired
  | .flushLost => flushLost
  | .write i => write i
  | .read i => read i
  | .shut i => shut i
  | .wakeStream i => brief (.stream i)
  | .wakeSendCredit => brief .sendCredit
  | .idleCheck streams => onIdleCheck streams
  | .close streams => closeInternal streams
  | .openStream => brief .conn
  | .control => inOrder [brief .conn, sendPacket, optional (brief .conn)]

def rank : Lock → Nat
  | .closeOnce => 0
  | .stream _ => 1
  | .ack | .lost | .sendCredit => 2
  | .cc => 3
  | .conn => 4
  | .pm => 5
  | .pacer | .mtu | .fc | .streamFC _ => 6

/-- Which section may be entered inside which. Locks are taken by rank, except
that loss detection takes the controller's inside the packet manager's; the
controller's own sections take the pacer's at most, but for the congestion
event. -/
def Edge : Section → Section → Prop
  | .detectLost, inner => inner = .plain .cc
  | _, .detectLost => False
  | .plain .cc, inner => inner = .plain .pacer
  | outer, inner => rank outer.lock < rank inner.lock

@[simp] theorem nested_inOrder (held : List Section) (codes : List (Code Section)) :
    Nested Edge held (inOrder codes) ↔ ∀ c ∈ codes, Nested Edge held c := by
  induction codes with
  | nil => simp [inOrder, Nested]
  | cons c rest ih =>
    rw [List.forall_mem_cons, ← ih]
    rfl

@[simp] theorem nested_oneOf (held : List Section) (codes : List (Code Section)) :
    Nested Edge held (oneOf codes) ↔ ∀ c ∈ codes, Nested Edge held c := by
  induction codes with
  | nil => simp [oneOf, Nested]
  | cons c rest ih =>
    rw [List.forall_mem_cons, ← ih]
    rfl

theorem nested_program (op : Operation) : Nested Edge [] (program op) := by
  cases op <;> simp [program, handlePacket, handleFrame, handleStreamFrame, handleAckFrame,
    noteReceived, ackTimerFired, onIdleCheck, closeInternal, deliverData, shut, read, write,
    writeTurn, awaitSendCredit, onPtoTimeout, onPTO, detectLostPackets, onPacketsLost, flushLost,
    probeMTU, fitToPath, sendStreamFrames, prepareDataPacket, retransmitPacket, sendPacket,
    peerAddr, onPacketLost, onCongestionEvent, lastSentSeqFn, repace, optional, within, brief,
    Nested, Edge, Section.lock, rank]

/-- How far up the order a waiting thread is. Inside loss detection it stands
above everything that can wait for the packet manager. -/
def height (t : Thread Section) (s : Section) : Nat :=
  if .detectLost ∈ t.held then 11 else 2 * rank s.lock

/-- No thread is inside loss detection while another is inside the congestion
event. -/
def DetectsApart (threads : List (Thread Section)) : Prop :=
  ∀ t ∈ threads, ∀ u ∈ threads, .detectLost ∈ t.held → .congestionEvent ∉ u.held

instance (threads : List (Thread Section)) : Decidable (DetectsApart threads) :=
  inferInstanceAs (Decidable (∀ t ∈ threads, ∀ u ∈ threads,
    .detectLost ∈ t.held → .congestionEvent ∉ u.held))

theorem edge_detectLost {outer : Section} : ¬ Edge outer .detectLost := by
  cases outer <;> simp [Edge]

theorem edge_cc {inner : Section} (edge : Edge (.plain .cc) inner) : inner = .plain .pacer := by
  cases inner with
  | detectLost => exact absurd edge edge_detectLost
  | plain l => exact edge
  | congestionEvent => exact edge

theorem rank_lt_of_edge {outer inner : Section} (edge : Edge outer inner)
    (other : outer ≠ .detectLost) : rank outer.lock < rank inner.lock := by
  unfold Edge at edge
  split at edge
  · contradiction
  · exact edge.elim
  · rw [edge]
    decide
  · exact edge

/-- A thread inside loss detection is inside nothing else. -/
theorem held_of_detectLost {t : Thread Section} (nests : NestedThread Edge t)
    (inside : .detectLost ∈ t.held) {s : Section} (wants : s ∈ t.wanted) :
    s = .plain .cc ∧ ∀ h ∈ t.held, h = .detectLost := by
  have reads : s = .plain .cc := nests.wanted wants _ inside
  refine ⟨reads, fun h member => ?_⟩
  by_contra other
  have symm : Std.Symm fun a b => Edge a b ∨ Edge b a := ⟨fun _ _ => Or.symm⟩
  have ordered : t.held.Pairwise fun a b => Edge a b ∨ Edge b a := nests.pairwise.imp Or.inr
  rcases ordered.forall inside member (Ne.symm other) with into | outof
  · obtain rfl : h = .plain .cc := into
    have again := edge_cc (nests.wanted wants _ member)
    rw [reads] at again
    cases again
  · exact edge_detectLost outof

theorem not_deadlocked_of_apart {steps : List (Locks.Step Operation)}
    {threads : List (Thread Section)}
    (reached : Runs.run (Locks.step Section.lock program) [] steps = some threads)
    (apart : DetectsApart threads) : ¬ Locks.Deadlocked Section.lock threads := by
  have nests := Locks.nestedThread_of_run nested_program reached
  refine Locks.not_deadlocked_of_climbs height ?_
  rintro t thread u holder s wants r wants' ⟨h, inside, same⟩
  have edge := (nests u holder).wanted wants' h inside
  unfold height
  by_cases detects : .detectLost ∈ t.held
  · obtain ⟨rfl, -⟩ := held_of_detectLost (nests t thread) detects wants
    rw [if_pos detects]
    -- The controller's lock is held outside the congestion event, so only the pacer is wanted.
    have plain : h = .plain .cc := by
      cases h with
      | plain l => rw [show l = .cc from same]
      | detectLost => cases same
      | congestionEvent => exact absurd inside (apart t thread u holder detects)
    rw [plain] at edge
    obtain rfl := edge_cc edge
    rw [if_neg]
    · decide
    · intro detects'
      have := (held_of_detectLost (nests u holder) detects' wants').1
      cases this
  · rw [if_neg detects]
    by_cases detects' : .detectLost ∈ u.held
    · rw [if_pos detects', ← same,
        (held_of_detectLost (nests u holder) detects' wants').2 h inside]
      decide
    · rw [if_neg detects', ← same]
      have := rank_lt_of_edge edge (fun loss => detects' (loss ▸ inside))
      omega

/-- Two flushes of the lost queue: one waits for the other. -/
theorem not_deadlocked_of_apart_flushes :
    ∃ threads,
      Runs.run (Locks.step Section.lock program) []
        [.spawn .flushLost, .spawn .flushLost, .run 0 true] = some threads ∧
      DetectsApart threads ∧ Locks.WaitsFor Section.lock threads 1 0 ∧
      ¬ Locks.Deadlocked Section.lock threads := by
  have waits : (Runs.run (Locks.step Section.lock program) []
      [.spawn .flushLost, .spawn .flushLost, .run 0 true]).any
      (fun threads => DetectsApart threads ∧ Locks.WaitsFor Section.lock threads 1 0) = true := by
    decide +kernel
  obtain ⟨threads, reached, test⟩ := Runs.reaches_of_any waits
  obtain ⟨apart, waiting⟩ := of_decide_eq_true test
  exact ⟨threads, reached, apart, waiting, not_deadlocked_of_apart reached apart⟩

/-- The loss timer and an ACK at the same moment: the timer's goroutine is in
the congestion event with the connection's lock, asking for the last sent
sequence, while the ACK's is in loss detection, asking for the RTT. -/
def lossTimerMeetsAck : List (Locks.Step Operation) :=
  let go (thread : Nat) (branches : List Bool) : List (Locks.Step Operation) :=
    branches.map (.run thread)
  -- The packet's ACK frame is booked, and loss detection is next.
  let booked := go 1 (List.replicate 6 true ++ [false] ++ List.replicate 8 true ++ [false] ++
    List.replicate 9 true)
  -- The timer has declared a loss and contracts the window.
  let contracting := go 0 (List.replicate 16 true ++ [false] ++ List.replicate 14 true)
  [.spawn .lossTimer, .spawn (.handlePacket 1 [])] ++ booked ++ contracting ++
    go 1 (List.replicate 3 true)

theorem lossTimerMeetsAck_deadlocks :
    ∃ threads, Runs.run (Locks.step Section.lock program) [] lossTimerMeetsAck = some threads ∧
      Locks.Deadlocked Section.lock threads := by
  have stuck : (Runs.run (Locks.step Section.lock program) [] lossTimerMeetsAck).any
      (fun threads => Locks.WaitsFor Section.lock threads 0 1 ∧
        Locks.WaitsFor Section.lock threads 1 0) = true := by
    decide +kernel
  obtain ⟨threads, reached, test⟩ := Runs.reaches_of_any stuck
  obtain ⟨forth, back⟩ := of_decide_eq_true test
  exact ⟨threads, reached, Locks.deadlocked_of_mutual (by decide) forth back⟩

end LockOrder

end Udx

import Udx.StreamTable

set_option autoImplicit false

/- A connection after `closeInternal`. The tear-down stops the timers, resets
the streams and forgets the packets, but what runs later does not ask whether
the connection is closed: some of it is harmless on what the tear-down leaves,
and some is not. -/

namespace Udx

theorem PacketManager.handleAckFrame_empty {pm : PacketManager} (empty : pm.sentPackets = ∅)
    (now : Time) (frame : AckFrame) : pm.handleAckFrame now frame = (pm, []) := by
  have taken (seqs : List UInt32) : seqs.foldl take (pm, []) = (pm, []) := by
    induction seqs with
    | nil => rfl
    | cons seq rest ih =>
      rw [List.foldl_cons, take, empty, AList.lookup_empty]
      exact ih
  rw [handleAckFrame, taken]
  rfl

theorem PacketManager.detectLostLocked_empty {pm : PacketManager} (empty : pm.sentPackets = ∅)
    (now : Time) (delay : Int) :
    pm.detectLostLocked now delay = ({ pm with lossTimer := none }, []) := by
  unfold detectLostLocked
  split
  · rfl
  · rw [empty]
    rfl

namespace Connection

variable {F : Type} {a b c : Connection F}

/-- Closed, with its streams reset, its timers stopped and nothing to wait
for. -/
structure Inert (c : Connection F) : Prop where
  closed : c.state = .closed
  streams : ∀ e ∈ c.streams.entries, e.2.state = .reset
  pto : c.cc.ptoTimer = none
  loss : c.pm.lossTimer = none
  ack : c.ackTimer = none
  resend : c.lostTimer = none
  tracked : c.pm.sentPackets = ∅
  queue : c.lostQueue = []
  pending : c.ackPending = 0

/-- What `Inert` looks at, and what has been sent. -/
structure Remains where
  state : ConnectionState
  streams : AList (fun _ : UInt32 => Stream)
  ptoTimer : Option Time
  lossTimer : Option Time
  ackTimer : Option AckTimer
  lostTimer : Option Time
  sentPackets : AList (fun _ : UInt32 => Ptr)
  lostQueue : List Ptr
  ackPending : Nat
  wire : List Datagram

def remains (c : Connection F) : Remains :=
  ⟨c.state, c.streams, c.cc.ptoTimer, c.pm.lossTimer, c.ackTimer, c.lostTimer, c.pm.sentPackets,
    c.lostQueue, c.ackPending, c.wire⟩

/-- Still inert, with nothing sent. -/
structure Rests (c c' : Connection F) : Prop where
  inert : c'.Inert
  wire : c'.wire = c.wire

/-- Resetting the streams of a list resets those of the table that are on it,
and changes nothing else. -/
theorem foldl_deliverReset (code : UInt32) {streams : List Stream} (keyed : c.Keyed)
    (listed : ∀ e ∈ c.streams.entries, e.2.state = .reset ∨ e.2 ∈ streams) :
    ∃ table, streams.foldl (fun c s => c.setStream (s.deliverReset code)) c =
        { c with streams := table } ∧ ∀ e ∈ table.entries, e.2.state = .reset := by
  induction streams generalizing c with
  | nil =>
    exact ⟨c.streams, rfl, fun e member => (listed e member).resolve_right List.not_mem_nil⟩
  | cons s rest ih =>
    obtain ⟨table, same, reset⟩ := ih (keyed.setStream (s.deliverReset code)) fun e member => by
      rcases Tables.new_or_other_of_mem_insert member with rfl | ⟨old, other⟩
      · exact .inl rfl
      · refine (listed e old).imp_right fun inside => ?_
        rcases List.mem_cons.mp inside with here | later
        · exact absurd ((keyed e old).symm.trans (congrArg Stream.id here)) other
        · exact later
    exact ⟨table, same, reset⟩

theorem inert_closeInternal (keyed : c.Keyed) (opened : c.state ≠ .closed) (now : Time)
    (code : UInt32) (reason : List UInt8) (announce : Bool) :
    (c.closeInternal now code reason announce).Inert := by
  rw [closeInternal_eq, if_neg opened]
  have told := restocks_announced keyed now code reason announce
  have quiet : (c.announced now code reason announce).ackTimer = none ∧
      (c.announced now code reason announce).ackPending = 0 := by
    have sends : Sends [] _ (c.announced now code reason announce) :=
      sends_announced now code reason announce
    exact ⟨congrArg Endpoint.ackTimer sends.endpoint, congrArg Endpoint.ackPending sends.endpoint⟩
  generalize c.announced now code reason announce = a at told quiet
  obtain ⟨table, same, reset⟩ := foldl_deliverReset (c := { a with state := .closed }) code
    told.keyed fun e member => .inr (List.mem_map_of_mem member)
  rw [resetAll, same]
  exact ⟨rfl, reset, rfl, rfl, quiet.1, rfl, rfl, rfl, quiet.2⟩

section

variable (inert : a.Inert)
include inert

theorem Inert.aside (same : b.remains = a.remains) : a.Rests b := by
  have streams : b.streams = a.streams := congrArg Remains.streams same
  exact {
    inert := {
      closed := (congrArg Remains.state same).trans inert.closed
      streams := streams ▸ inert.streams
      pto := (congrArg Remains.ptoTimer same).trans inert.pto
      loss := (congrArg Remains.lossTimer same).trans inert.loss
      ack := (congrArg Remains.ackTimer same).trans inert.ack
      resend := (congrArg Remains.lostTimer same).trans inert.resend
      tracked := (congrArg Remains.sentPackets same).trans inert.tracked
      queue := (congrArg Remains.lostQueue same).trans inert.queue
      pending := (congrArg Remains.ackPending same).trans inert.pending }
    wire := congrArg Remains.wire same }

theorem Inert.setStream {t : Stream} (reset : t.state = .reset) : a.Rests (a.setStream t) := by
  refine ⟨⟨inert.closed, fun e member => ?_, inert.pto, inert.loss, inert.ack, inert.resend,
    inert.tracked, inert.queue, inert.pending⟩, rfl⟩
  rcases Tables.mem_of_mem_insert member with rfl | old
  · exact reset
  · exact inert.streams e old

theorem Inert.reset_of_lookup {id : UInt32} {s : Stream} (found : a.streams.lookup id = some s) :
    s.state = .reset :=
  inert.streams ⟨id, s⟩ (Tables.mem_entries_iff.mpr found)

theorem Inert.reset_of_findStream {localID remoteID : UInt32} {s : Stream}
    (found : a.findStream localID remoteID = some s) : s.state = .reset := by
  obtain ⟨e, member, rfl⟩ := mem_of_findStream found
  exact inert.streams e member

/-- A STREAM frame with neither data nor SYN nor FIN. -/
theorem Inert.handleStreamFrame (now : Time) (pkt : Packet) {f : StreamFrame}
    (bare : Frame.bearsData (.stream f) = false) : a.Rests (a.handleStreamFrame now pkt f) := by
  simp only [Frame.bearsData, Bool.or_eq_false_iff, decide_eq_false_iff_not] at bare
  obtain ⟨⟨empty, syn⟩, fin⟩ := bare
  rw [handleStreamFrame_eq]
  cases found : a.findStream pkt.destinationStreamID pkt.sourceStreamID with
  | none =>
    have stays : ¬ (pkt.sourceStreamID ≠ 0 ∧ (f.isSyn = true ∨ f.data.length > 0)) := by
      simp only [syn, Bool.false_eq_true, false_or]
      exact fun opens => empty opens.2
    rw [streamFor, found]
    dsimp only
    rw [if_neg stays]
    exact inert.aside rfl
  | some s =>
    rw [streamFor, found]
    simp only [deliver, empty, fin, ↓reduceIte, Bool.false_eq_true]
    exact inert.setStream (inert.reset_of_findStream found)

theorem Inert.onStream (now : Time) (pkt : Packet) {op : Stream → Stream × List Frame}
    (quiet : ∀ s : Stream, s.state = .reset → (op s).1.state = .reset ∧ (op s).2 = []) :
    a.Rests (a.onStream now pkt op) := by
  unfold Connection.onStream
  split
  · exact inert.aside rfl
  · rename_i s found
    obtain ⟨reset, silent⟩ := quiet s (inert.reset_of_findStream found)
    rw [silent]
    exact inert.setStream reset

/-- No batch of a write goes out, nor is its writer's complaint. -/
theorem Inert.writeBatch [Float64 F] (now : Time) (id : UInt32) (entering : Bool)
    (data : List UInt8) : a.writeBatch now id entering data = none := by
  have shut (first want : Nat) : a.awaitSendCreditUpTo now first want = none :=
    if_pos inert.closed
  simp [Connection.writeBatch, shut]

theorem Inert.writeBlocked (now : Time) (id : UInt32) : a.writeBlocked now id = none := by
  cases found : a.streams.lookup id with
  | none => simp [Connection.writeBlocked, found]
  | some s =>
    have reset := inert.reset_of_lookup found
    simp [Connection.writeBlocked, found, Stream.writeError, reset]

theorem Inert.handleAckFrame [Float64 F] (now : Time) (f : AckFrame) :
    a.Rests (a.handleAckFrame now f) := by
  rw [handleAckFrame_eq, acknowledged, PacketManager.handleAckFrame_empty inert.tracked]
  exact inert.aside rfl

theorem Inert.onLossTimer [Float64 F] (now : Time) : a.Rests (a.onLossTimer now) := by
  have empty : a.timedOut.pm.sentPackets = ∅ := inert.tracked
  rw [onLossTimer_eq, PacketManager.detectLostLocked_empty empty]
  refine inert.aside ?_
  show remains _ = _
  rw [remains, remains, inert.loss]
  rfl

theorem Inert.flushLost [Float64 F] (now : Time) : a.Rests (a.flushLost now) := by
  have ends (fuel : Nat) (c : Connection F) (empty : c.lostQueue = []) :
      flushLoop now fuel c = c := by
    cases fuel with
    | zero => rfl
    | succ fuel => rw [flushLoop, empty]
  rw [Connection.flushLost, ends _ { a with lostTimer := none } inert.queue]
  refine inert.aside ?_
  rw [remains, remains, inert.resend]

/-- The timeout finds no packet to re-send; it re-arms its timer only for bytes
in flight. -/
theorem Inert.onPtoTimeout [Float64 F] (now : Time) (idle : ¬ a.cc.inflight > 0) :
    a.Rests (a.onPtoTimeout now) := by
  let fired : Connection F := { a with cc := a.cc.ptoFired }
  have fell : (fired.blackholed now).remains = a.remains ∧
      (fired.blackholed now).cc = a.cc.ptoFired := by
    have stopped : fired.remains = a.remains := by rw [remains, remains, inert.pto]; rfl
    unfold blackholed
    split
    · exact ⟨stopped, rfl⟩
    · exact ⟨stopped, rfl⟩
  have none : (fired.blackholed now).pm.oldestUnacked ptoProbes = [] := by
    have empty : (fired.blackholed now).pm.sentPackets = ∅ :=
      (congrArg Remains.sentPackets fell.1).trans inert.tracked
    rw [PacketManager.oldestUnacked, empty]
    rfl
  have still : a.cc.ptoFired.ptoRearm now = a.cc.ptoFired := if_neg fun armed => idle armed.1
  have quiet : fired.onPTO now = fired.blackholed now := by
    rw [onPTO_eq, none]
    rfl
  refine inert.aside ?_
  show remains { fired.onPTO now with cc := (fired.onPTO now).cc.ptoRearm now } = _
  rw [quiet, fell.2, still, ← fell.2]
  exact fell.1

end

end Connection

namespace Stream

/-- A read into `size` bytes takes something and leaves the peer less credit than
half the window. -/
def OwesUpdate (s : Stream) (size : Nat) : Prop :=
  s.recvBuf ≠ [] ∧ s.streamFC.lastAdvertised -
    (s.streamFC.dataConsumed + (s.recvBuf.take size).length) < s.streamFC.recvWindow / 2

instance (s : Stream) (size : Nat) : Decidable (s.OwesUpdate size) :=
  inferInstanceAs (Decidable (_ ∧ _))

theorem read_silent (s : Stream) {size : Nat} (even : ¬ s.OwesUpdate size) (expired : Bool) :
    (s.read size expired).2.2 = [] := by
  unfold read
  split
  · repeat' split
    all_goals rfl
  · rename_i some
    dsimp only [StreamFlowController.onDataConsumed]
    rw [if_neg]
    intro owes
    exact even ⟨fun empty => some (by rw [empty]; rfl), of_decide_eq_true owes⟩

end Stream

namespace Host

variable {F : Type} [Float64 F] {h h' : Host F}

/-- What a closed connection takes without a trace: no frame that opens or
completes a stream or is answered, no packet that is acknowledged, no probe
timeout while bytes count as in flight, no read that owes the peer a window
update, nothing that sends by itself. -/
def harmless (h : Host F) : Input → Bool
  | .frame _ _ (.stream f) => !Frame.bearsData (.stream f)
  | .frame _ _ (.pathChallenge _) | .frame _ _ (.dataBlocked _)
  | .frame _ _ (.streamDataBlocked _ _) => false
  | .note _ _ | .sendChallenge _ | .ping _ | .migrate _ _ _ => false
  | .pto _ => !decide (h.conn.cc.inflight > 0)
  | .read _ id size _ =>
    (h.conn.streams.lookup id).all fun s => !decide (s.OwesUpdate size)
  | _ => true

theorem rests_frame (inert : h.conn.Inert) (now : Time) (pkt : Packet) {f : Frame}
    (harmless : h.harmless (.frame now pkt f) = true) :
    h.conn.Rests (h.conn.handleFrame now pkt f) := by
  cases f with
  | stream f => exact inert.handleStreamFrame now pkt (by simpa [Host.harmless] using harmless)
  | ack f => exact inert.handleAckFrame now f
  | windowUpdate wire => exact inert.onStream now pkt fun s reset => ⟨reset, rfl⟩
  | resetStream code => exact inert.onStream now pkt fun s reset => ⟨rfl, rfl⟩
  | stopSending id code =>
    refine inert.onStream now pkt fun s reset => ?_
    rw [Stream.reset, if_pos (.inr reset)]
    exact ⟨reset, rfl⟩
  | connectionClose g =>
    show h.conn.Rests (h.conn.closeInternal now errorNoError [] true)
    rw [Connection.closeInternal_eq, if_pos inert.closed]
    exact inert.aside rfl
  | pathResponse data =>
    have moved : (h.conn.completeMigration data).1.remains = h.conn.remains := by
      unfold Connection.completeMigration
      split
      · rfl
      · split <;> rfl
    unfold Connection.handleFrame
    dsimp only
    split <;> rename_i out <;> rw [out] at moved
    · exact inert.aside moved
    · exact inert.aside moved
  | maxData limit =>
    have raised (fc : FlowController) : h.conn.Rests { h.conn with fc := fc } := inert.aside rfl
    exact raised _
  | maxStreams count =>
    unfold Connection.handleFrame
    dsimp only
    split
    · exact inert.aside rfl
    · exact inert.aside rfl
  | pathChallenge | dataBlocked | streamDataBlocked => cases harmless
  | padding | ping | mtuProbe | newConnectionID | retireConnectionID => exact inert.aside rfl

omit [Float64 F] in
theorem rests_read (inert : h.conn.Inert) {now : Time} {id : UInt32} {size : Nat} {expired : Bool}
    (harmless : h.harmless (.read now id size expired) = true)
    {out : Connection F × ReadResult} (read : h.conn.read now id size expired = some out) :
    h.conn.Rests out.1 := by
  obtain ⟨s, found, rfl⟩ := Connection.read_eq_some now read
  have silent : (s.read size expired).2.2 = [] :=
    s.read_silent (by simpa [Host.harmless, found] using harmless) expired
  dsimp only
  rw [silent]
  exact inert.setStream ((s.state_read size expired).trans (inert.reset_of_lookup found))

omit [Float64 F] in
theorem rests_callStream (inert : h.conn.Inert) {now : Time} {id : UInt32}
    {op : Stream → Stream × List Frame} {c : Connection F}
    (quiet : ∀ s : Stream, s.state = .reset → op s = (s, []))
    (called : h.conn.callStream now id op = some c) : h.conn.Rests c := by
  obtain ⟨s, found, rfl⟩ := Connection.callStream_eq_some now called
  have reset := inert.reset_of_lookup found
  rw [quiet s reset]
  exact inert.setStream reset

theorem rests_step {input : Input} (inert : h.conn.Inert) (harmless : h.harmless input = true)
    (taken : h.step input = some h') : h.conn.Rests h'.conn := by
  have still : h.conn.Rests h.conn := inert.aside rfl
  cases input with
  | arrive now pkt =>
    obtain rfl := Option.some.inj taken
    exact inert.aside rfl
  | frame now pkt f =>
    obtain rfl := Option.some.inj taken
    exact rests_frame inert now pkt harmless
  | observeAddr now addr challenge =>
    obtain rfl := Option.some.inj taken
    refine inert.aside ?_
    show (h.conn.observeAddr now addr challenge).1.remains = _
    unfold Connection.observeAddr
    repeat' split
    all_goals rfl
  | ackTimer now src dst =>
    obtain rfl := Option.some.inj taken
    show h.conn.Rests (h.conn.ackTimerFired now src dst)
    rw [Connection.ackTimerFired]
    dsimp only
    rw [if_pos inert.pending]
    exact inert.aside (by rw [Connection.remains, Connection.remains, inert.ack])
  | lossTimer now =>
    obtain rfl := Option.some.inj taken
    exact inert.onLossTimer now
  | pto now =>
    obtain rfl := Option.some.inj taken
    exact inert.onPtoTimeout now (by simpa [Host.harmless] using harmless)
  | flushLost now =>
    obtain rfl := Option.some.inj taken
    exact inert.flushLost now
  | idleCheck now =>
    obtain rfl := Option.some.inj taken
    have alive : h.conn.idleExpired now = false := if_pos (.inr inert.closed)
    show h.conn.Rests (h.conn.onIdleCheck now)
    rw [Connection.onIdleCheck, alive]
    exact still
  | openStream =>
    obtain rfl := Option.some.inj taken
    show h.conn.Rests h.conn.openStream.1
    rw [Connection.openStream, if_pos (.inl inert.closed)]
    exact still
  | acceptStream =>
    obtain ⟨out, accepted, rfl⟩ := Option.map_eq_some_iff.mp taken
    obtain ⟨id, rest, -, rfl⟩ := Connection.acceptStream_eq_some accepted
    exact inert.aside rfl
  | write now id entering data =>
    obtain ⟨out, written, rfl⟩ := Option.map_eq_some_iff.mp taken
    rw [inert.writeBatch now id entering data] at written
    cases written
  | writeBlocked now id =>
    obtain ⟨c, blocked, rfl⟩ := Option.map_eq_some_iff.mp taken
    rw [inert.writeBlocked now id] at blocked
    cases blocked
  | read now id size expired =>
    obtain ⟨out, read, rfl⟩ := Option.map_eq_some_iff.mp taken
    exact rests_read inert harmless read
  | closeStream now id =>
    obtain ⟨c, called, rfl⟩ := Option.map_eq_some_iff.mp taken
    refine rests_callStream inert (fun s reset => ?_) called
    rw [Stream.close, if_pos (.inr reset)]
  | resetStream now id code =>
    obtain ⟨c, called, rfl⟩ := Option.map_eq_some_iff.mp taken
    refine rests_callStream inert (fun s reset => ?_) called
    rw [Stream.reset, if_pos (.inr reset)]
  | close now code reason =>
    obtain rfl := Option.some.inj taken
    show h.conn.Rests (h.conn.closeInternal now code reason true)
    rw [Connection.closeInternal_eq, if_pos inert.closed]
    exact still
  | answer i =>
    simp only [step, Option.bind_eq_bind, Option.bind_eq_some_iff] at taken
    obtain ⟨⟨challenge, newAddr⟩, -, c, finished, out⟩ := taken
    obtain rfl := Option.some.inj out
    obtain ⟨resp, -, rfl⟩ := Connection.finishPathMigration_eq_some finished
    refine inert.aside ?_
    dsimp only
    split <;> rfl
  | giveUp i =>
    obtain rfl := Option.some.inj taken
    exact still
  | note | sendChallenge | ping | migrate => cases harmless

/-- A step on an open connection leaves it open, or tears it down. -/
theorem inert_of_closed_step {input : Input} (keyed : h.conn.Keyed)
    (opened : h.conn.state ≠ .closed)
    (taken : h.step input = some h') (closed : h'.conn.state = .closed) : h'.conn.Inert := by
  cases step_effect taken with
  | close now code reason announce =>
    exact Connection.inert_closeInternal keyed opened now code reason announce
  | serve callers changes => exact absurd (changes.state.symm.trans closed) opened
  | enter now pkt f _ _ _ changes => exact absurd (changes.state.symm.trans closed) opened
  | ack now pkt f =>
    have keeps := (Connection.keeps_handleAckFrame (c := h.conn) now f).endpoint
    exact absurd ((congrArg Connection.Endpoint.state keeps).symm.trans closed) opened
  | challenge i data addr =>
    exact absurd ((h.conn.state_sendControlTo _ addr).symm.trans closed) opened
  | openStream | raise | arrive | move | respond | pend | reject | finish =>
    exact absurd closed opened

/-- Once the connection is closed, only harmless things happen. -/
def Quiet (h : Host F) (input : Input) : Prop :=
  h.conn.state = .closed → h.harmless input = true

instance (h : Host F) (input : Input) : Decidable (h.Quiet input) :=
  inferInstanceAs (Decidable (_ → _))

/-- A closed connection is inert. -/
structure Settles (h : Host F) : Prop where
  keyed : h.conn.Keyed
  inert : h.conn.state = .closed → h.conn.Inert

theorem Settles.step {input : Input} (settles : h.Settles) (quiet : h.Quiet input)
    (taken : h.step input = some h') : h'.Settles := by
  refine ⟨keyed_step settles.keyed taken, fun closed => ?_⟩
  by_cases before : h.conn.state = .closed
  · exact (rests_step (settles.inert before) (quiet before) taken).inert
  · exact inert_of_closed_step settles.keyed before taken closed

/-- The peer closes the connection and, in the same packet, opens a stream. -/
def closingPacket : Packet :=
  listener.conn.packet 0 0 1 [.connectionClose ⟨0, 0, []⟩, .stream ⟨false, true, 0, [7]⟩]

/-- Its steps up to the close, and the rest. -/
def closing : List Input :=
  [.arrive 0 closingPacket, .frame 0 closingPacket (.connectionClose ⟨0, 0, []⟩)]

def remaining : List Input :=
  [.frame 0 closingPacket (.stream ⟨false, true, 0, [7]⟩), .note 0 closingPacket]

end Host

end Udx

import Udx.Dialogue
import Udx.Integrity
import Udx.PathMigration

set_option autoImplicit false

/- What an ACK on the wire says is true: it names packets that the peer has sent and
that have been handled, and no others. -/

namespace Udx

/-- The number that a step records for the next ACK. -/
def Host.Input.records : Host.Input → List UInt32
  | .note _ pkt => [pkt.sequence]
  | _ => []

/-- The step records a packet or acknowledges what is pending. -/
def Host.Input.answers : Host.Input → Bool
  | .note .. | .ackTimer .. => true
  | _ => false

namespace Connection

variable {F : Type} {a b c : Connection F} {noted : List UInt32}

/-- No datagram acknowledges a number that is not in `noted`, nor will one that goes out
again or that is yet to be made. -/
structure Honest (noted : List UInt32) (c : Connection F) : Prop where
  records : c.Records noted
  free : c.pm.AckFree
  wire : ∀ d ∈ c.wire, ∀ f, .ack f ∈ d.packet.frames → ∀ n ∈ f.sequences, n ∈ noted

theorem Honest.silent (honest : a.Honest noted) (noAck : NoAck a b) (records : b.Records noted) :
    b.Honest noted := by
  obtain ⟨sent, wire, kept⟩ := noAck
  obtain ⟨free, quiet⟩ := kept honest.free
  refine ⟨records, free, fun d member f inside => ?_⟩
  rw [wire] at member
  rcases List.mem_append.mp member with new | old
  · cases quiet d new _ inside
  · exact honest.wire d old f inside

theorem Honest.acknowledge (honest : c.Honest noted) (any : noted ≠ []) (now : Time)
    (dstStreamID srcStreamID : UInt32) : (c.acknowledge now dstStreamID srcStreamID).Honest noted := by
  have cleared : (c.takeAckLocked now).1.Records noted :=
    ⟨honest.records.recvd, fun pending => absurd rfl pending⟩
  rw [acknowledge_eq]
  split
  · exact ⟨cleared, honest.free, honest.wire⟩
  · refine ⟨⟨cleared.recvd, cleared.pending⟩, honest.free,
      List.forall_mem_cons.mpr ⟨?_, honest.wire⟩⟩
    intro f inside
    obtain rfl := Frame.ack.inj (List.mem_singleton.mp inside)
    exact plain_ack honest.records.recvd any

theorem Honest.noteReceived (honest : c.Honest noted) (now : Time) (pkt : Packet) :
    (c.noteReceived now pkt).Honest (pkt.sequence :: noted) := by
  have recorded : (c.recorded now pkt).Honest (pkt.sequence :: noted) :=
    ⟨⟨honest.records.recvd.add pkt.sequence, fun _ => List.cons_ne_nil _ _⟩, honest.free,
      fun d member f inside n named => List.mem_cons_of_mem _ (honest.wire d member f inside n named)⟩
  have ways := c.noted_noteReceived now pkt
  generalize c.noteReceived now pkt = c' at ways ⊢
  cases ways with
  | now => exact recorded.acknowledge (List.cons_ne_nil _ _) now _ _
  | armed =>
    exact ⟨⟨recorded.records.recvd, recorded.records.pending⟩, recorded.free, recorded.wire⟩
  | waits => exact recorded

theorem Honest.ackTimerFired (honest : c.Honest noted) (now : Time) (src dst : UInt32) :
    (c.ackTimerFired now src dst).Honest noted := by
  have stopped : Connection.Honest noted { c with ackTimer := none } :=
    ⟨⟨honest.records.recvd, honest.records.pending⟩, honest.free, honest.wire⟩
  unfold Connection.ackTimerFired
  dsimp only
  split
  · exact stopped
  · rename_i pending
    exact stopped.acknowledge (honest.records.pending pending) now src dst

theorem Records.of_intake (records : a.Records noted) (same : b.intake = a.intake) :
    b.Records noted :=
  records.congr (congrArg Intake.recvd same) (congrArg Intake.ackPending same)

theorem Records.closeInternal (records : c.Records noted) (now : Time) (code : UInt32)
    (reason : List UInt8) (announce : Bool) :
    (c.closeInternal now code reason announce).Records noted := by
  by_cases closed : c.state = .closed
  · rw [closeInternal_eq, if_pos closed]
    exact records
  · have intake := intake_closeInternal now closed code reason announce
    refine ⟨?_, fun pending => absurd (congrArg Intake.ackPending intake) pending⟩
    rw [show (c.closeInternal now code reason announce).recvd = c.recvd from
      congrArg Intake.recvd intake]
    exact records.recvd

theorem Records.handleStreamFrame [Float64 F] (records : c.Records noted) (now : Time)
    (pkt : Packet) (f : StreamFrame) : (c.handleStreamFrame now pkt f).Records noted := by
  have state : (c.handleStreamFrame now pkt f).state = c.state := by
    rcases changes_handleStreamFrame now pkt f with changes | ⟨-, -, -, changes⟩
    · exact changes.state
    · exact changes.state
  have level := c.level_handleStreamFrame now pkt f state
  exact records.congr level.recvd level.pending

end Connection

namespace Host

open Connection

variable {F : Type} [Float64 F] {h h' : Host F} {noted : List UInt32}

/-- A step that neither records a packet nor acknowledges leaves the record as it is. -/
theorem records_step {input : Input} (records : h.conn.Records noted)
    (taken : h.step input = some h') (aside : input.answers = false) : h'.conn.Records noted := by
  by_cases quiet : deals input = false
  · exact records.of_intake (intake_step taken quiet)
  cases input with
  | frame now pkt f =>
    obtain rfl := Option.some.inj taken
    cases f with
    | stream f => exact records.handleStreamFrame now pkt f
    | connectionClose => exact records.closeInternal now _ _ _
    | _ => exact absurd rfl quiet
  | acceptStream =>
    obtain ⟨out, accepted, rfl⟩ := Option.map_eq_some_iff.mp taken
    obtain ⟨id, rest, -, rfl⟩ := Connection.acceptStream_eq_some accepted
    exact ⟨records.recvd, records.pending⟩
  | idleCheck now =>
    rw [step, Connection.onIdleCheck] at taken
    obtain rfl := Option.some.inj taken
    dsimp only
    split
    · exact records.closeInternal now _ _ _
    · exact records
  | close now code reason =>
    obtain rfl := Option.some.inj taken
    exact records.closeInternal now code reason true
  | note | ackTimer => cases aside
  | _ => exact absurd rfl quiet

theorem honest_step {input : Input} (honest : h.conn.Honest noted)
    (taken : h.step input = some h') : h'.conn.Honest (input.records ++ noted) := by
  cases input with
  | note now pkt =>
    rw [step] at taken
    split at taken
    · cases taken
    · obtain rfl := Option.some.inj taken
      exact honest.noteReceived now pkt
  | ackTimer now src dst =>
    obtain rfl := Option.some.inj taken
    exact honest.ackTimerFired now src dst
  | arrive now pkt =>
    obtain rfl := Option.some.inj taken
    exact ⟨⟨honest.records.recvd, honest.records.pending⟩, honest.free, honest.wire⟩
  | frame now pkt f =>
    have records := records_step honest.records taken rfl
    obtain rfl := Option.some.inj taken
    exact honest.silent (noAck_handleFrame now pkt f) records
  | _ => exact honest.silent (noAck_step taken rfl) (records_step honest.records taken rfl)

theorem honest_run {inputs : List Input} (honest : h.conn.Honest noted)
    (reached : Runs.run step h inputs = some h') :
    h'.conn.Honest (inputs.reverse.flatMap Input.records ++ noted) := by
  induction inputs generalizing h noted with
  | nil =>
    obtain rfl := Option.some.inj reached
    exact honest
  | cons input rest ih =>
    rw [Runs.run_cons] at reached
    obtain ⟨mid, taken, later⟩ := Option.bind_eq_some_iff.mp reached
    have after := ih (honest_step honest taken) later
    rwa [List.reverse_cons, List.flatMap_append, List.flatMap_singleton, List.append_assoc]

end Host

namespace Net

open Connection

variable {F : Type} [Float64 F] {n : Net F} {start : Net F} {turns : List (Side × Host.Input)}

theorem honest_opening (cid peerCID : ConnectionID) (addr peerAddr : Addr) (dialled accepted : Time)
    (side : Side) :
    ((opening cid peerCID addr peerAddr dialled accepted : Net F).conn side).Honest [] := by
  have new (localCID remoteCID : ConnectionID) (addr : Addr) (dialled : Bool) (now : Time) :
      (Peer.newPeer localCID remoteCID addr dialled now : Peer F).host.conn.Honest [] :=
    ⟨⟨RecvTracker.represents_empty, fun pending => absurd rfl pending⟩,
      fun _ => List.forall_mem_nil _, List.forall_mem_nil _⟩
  cases side with
  | left =>
    rw [conn_opening_left]
    let c : Connection F := (Peer.newPeer cid peerCID peerAddr true dialled).host.conn
    have honest : c.Honest [] := new cid peerCID peerAddr true dialled
    have said : NoAck c (c.sendFrames dialled [.stream ⟨false, true, 0, []⟩]) :=
      noAck_sendFrames dialled (ackFree_singleton rfl)
    exact honest.silent said ((sends_syn dialled c).toKeeps.records honest.records)
  | right =>
    rw [conn_opening_right]
    exact new peerCID cid addr false accepted

/-- Whatever the network does, an ACK that a side has put on the wire names only packets that
the other side has sent and that this side has handled. -/
theorem acks_name_handled (begins : start.Begins) (reached : Runs.run step start turns = some n)
    {side : Side} {d : Datagram} (sent : d ∈ (n.conn side).wire) {f : AckFrame}
    (ack : .ack f ∈ d.packet.frames) {seq : UInt32} (named : seq ∈ f.sequences) :
    ∃ now pkt, (side, .note now pkt) ∈ turns ∧ pkt.sequence = seq ∧
      (n.host side.other).sent pkt = true := by
  have first : ((start.host side).conn).Honest [] := by
    obtain ⟨cid, peerCID, addr, peerAddr, dialled, accepted, rfl⟩ := begins
    exact honest_opening cid peerCID addr peerAddr dialled accepted side
  have noted := (Host.honest_run first (run_inputs reached side)).wire d sent f ack seq named
  rw [List.append_nil, List.mem_flatMap] at noted
  obtain ⟨input, member, recorded⟩ := noted
  obtain ⟨⟨actor, input'⟩, turn, here⟩ := List.mem_filterMap.mp (List.mem_reverse.mp member)
  obtain ⟨rfl, rfl⟩ : actor = side ∧ input' = input := by simpa using here
  cases input' with
  | note now pkt =>
    refine ⟨now, pkt, turn, (List.mem_singleton.mp recorded).symm, ?_⟩
    -- it had been sent when it was handled, and what is sent stays so
    obtain ⟨before, after, rfl⟩ := List.append_of_mem turn
    rw [Runs.run_append] at reached
    obtain ⟨mid, earlier, later⟩ := Option.bind_eq_some_iff.mp reached
    rw [Runs.run_cons] at later
    obtain ⟨next, taken, later⟩ := Option.bind_eq_some_iff.mp later
    obtain ⟨arrives, -, still⟩ := step_cases taken
    obtain ⟨e, there, same⟩ := Host.sent_iff.mp arrives
    rw [← still] at there
    exact Host.sent_iff.mpr ⟨e, Host.wire_subset_run (run_inputs later actor.other) there, same⟩
  | _ => cases recorded

/-- The first packet of the dialler's stream is acknowledged at once. -/
theorem acks_name_handled_farewell :
    ∃ n d f, Runs.run step met farewellRead = some n ∧ d ∈ (n.conn .right).wire ∧
      .ack f ∈ d.packet.frames ∧ 1 ∈ f.sequences ∧
      ∃ now pkt, (.right, .note now pkt) ∈ farewellRead ∧ pkt.sequence = 1 ∧
        (n.host .left).sent pkt = true := by
  have acked : (Runs.run step met farewellRead).any (fun n => (n.conn .right).wire.any fun d =>
      decide (.ack ⟨1, 0, 1, []⟩ ∈ d.packet.frames)) = true := by
    decide +kernel
  obtain ⟨n, reached, acked⟩ := Runs.reaches_of_any acked
  obtain ⟨d, sent, acked⟩ := List.any_eq_true.mp acked
  have inside := of_decide_eq_true acked
  have named : 1 ∈ AckFrame.sequences ⟨1, 0, 1, []⟩ := by decide
  exact ⟨n, d, _, reached, sent, inside, named,
    acks_name_handled (begins_start _ _ _ _ _) reached sent inside named⟩

end Net

end Udx

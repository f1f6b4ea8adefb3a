import Udx.Lib.Handoff
import Udx.StreamTable

set_option autoImplicit false

/- What a connection has taken in from its peer and not yet dealt with: the
streams that wait to be accepted and the packets that wait to be acknowledged.
Sending leaves it alone. -/

namespace Udx

open Handoff (Desk offer)

structure Intake where
  incomingStreams : List UInt32
  recvd : RecvTracker
  ackPending : Nat
  ackTimer : Option AckTimer

namespace Connection

variable {F : Type} {a b c : Connection F}

def intake (c : Connection F) : Intake :=
  ⟨c.incomingStreams, c.recvd, c.ackPending, c.ackTimer⟩

theorem Keeps.intake {labels : List (UInt32 × UInt32)} (keeps : Keeps labels a b) :
    b.intake = a.intake :=
  congrArg (fun e : Endpoint => Intake.mk e.incomingStreams e.recvd e.ackPending e.ackTimer)
    keeps.endpoint

section

variable (now : Time)

theorem intake_sendPacket (dstStreamID srcStreamID : UInt32) (frames : List Frame) :
    (c.sendPacket now dstStreamID srcStreamID frames).intake = c.intake := by
  have sends : Sends [(srcStreamID, dstStreamID)] c
      (c.sendPacket now dstStreamID srcStreamID frames) :=
    sends_sendPacket now dstStreamID srcStreamID frames fun _ => List.mem_singleton_self _
  exact sends.toKeeps.intake

theorem intake_sendFrames (frames : List Frame) :
    (c.sendFrames now frames).intake = c.intake :=
  intake_sendPacket now 0 0 frames

theorem intake_setStream_sendFor (t : Stream) (frames : List Frame) :
    ((c.setStream t).sendFor now t frames).intake = c.intake :=
  (sends_sendFor now t frames).toKeeps.intake

theorem intake_deliver (s : Stream) (f : StreamFrame) : (c.deliver now s f).intake = c.intake :=
  intake_setStream_sendFor now _ _

theorem intake_onStream (pkt : Packet) (op : Stream → Stream × List Frame) :
    (c.onStream now pkt op).intake = c.intake := by
  unfold onStream
  split
  · rfl
  · exact intake_setStream_sendFor now _ _

theorem intake_callStream {id : UInt32} {op : Stream → Stream × List Frame} {c' : Connection F}
    (called : c.callStream now id op = some c') : c'.intake = c.intake := by
  obtain ⟨s, -, rfl⟩ := callStream_eq_some now called
  exact intake_setStream_sendFor now _ _

theorem intake_writeBlocked {id : UInt32} {c' : Connection F}
    (blocked : c.writeBlocked now id = some c') : c'.intake = c.intake := by
  obtain ⟨s, -, -, rfl⟩ := writeBlocked_eq_some now blocked
  exact (sends_sendFor now s _).toKeeps.intake

theorem intake_read {id : UInt32} {size : Nat} {expired : Bool}
    {out : Connection F × ReadResult} (read : c.read now id size expired = some out) :
    out.1.intake = c.intake := by
  obtain ⟨s, -, rfl⟩ := read_eq_some now read
  exact intake_setStream_sendFor now _ _

theorem intake_sendControlTo (frames : List Frame) (addr : Addr) :
    (c.sendControlTo frames addr).intake = c.intake := by
  simp only [sendControlTo, intake]

theorem intake_foldl_setStream (streams : List Stream) (op : Stream → Stream) :
    (streams.foldl (fun c s => c.setStream (op s)) c).intake = c.intake := by
  induction streams generalizing c with
  | nil => rfl
  | cons s rest ih => exact ih

theorem intake_closeInternal (opened : c.state ≠ .closed) (code : UInt32) (reason : List UInt8)
    (announce : Bool) :
    (c.closeInternal now code reason announce).intake = ⟨c.incomingStreams, c.recvd, 0, none⟩ := by
  have told : (c.announced now code reason announce).intake =
      ⟨c.incomingStreams, c.recvd, 0, none⟩ :=
    (sends_announced now code reason announce).toKeeps.intake
  rw [closeInternal_eq, if_neg opened]
  exact (intake_foldl_setStream _ (Stream.deliverReset · code)).trans told

theorem incomingStreams_closeInternal (code : UInt32) (reason : List UInt8) (announce : Bool) :
    (c.closeInternal now code reason announce).incomingStreams = c.incomingStreams := by
  by_cases closed : c.state = .closed
  · rw [closeInternal_eq, if_pos closed]
  · exact congrArg Intake.incomingStreams (intake_closeInternal now closed code reason announce)

variable [Float64 F]

theorem intake_writeBatch {id : UInt32} {entering : Bool} {data : List UInt8}
    {out : Connection F × Nat} (written : c.writeBatch now id entering data = some out) :
    out.1.intake = c.intake := by
  obtain ⟨s, ask, granted, t, batch, -, -, -, -, rfl⟩ := writeBatch_eq_some now written
  exact (sends_sendStreamFrames (c := c.setStream t) now _ _ _ _ _ _).toKeeps.intake

theorem intake_handleFrame (pkt : Packet) {f : Frame} (stream : ∀ g, f ≠ .stream g)
    (close : ∀ g, f ≠ .connectionClose g) : (c.handleFrame now pkt f).intake = c.intake := by
  cases f with
  | stream g => exact absurd rfl (stream g)
  | connectionClose g => exact absurd rfl (close g)
  | ack g => exact (keeps_handleAckFrame now g).intake
  | windowUpdate | resetStream | stopSending | streamDataBlocked => exact intake_onStream now pkt _
  | pathChallenge | dataBlocked => exact intake_sendFrames now _
  | pathResponse data =>
    simp only [handleFrame, completeMigration]
    cases c.pendingAddr with
    | none => rfl
    | some addr =>
      dsimp only
      by_cases answers : data ≠ c.pendingChallenge
      · rw [if_pos answers]
        rfl
      · rw [if_neg answers]
        rfl
  | maxStreams count =>
    simp only [handleFrame]
    split <;> rfl
  | maxData limit =>
    have raised (fc : FlowController) : { c with fc := fc }.intake = c.intake := rfl
    exact raised _
  | padding | ping | mtuProbe | newConnectionID | retireConnectionID => rfl

end

end Connection

namespace Host

variable {F : Type} [Float64 F] {h h' : Host F}

def opens (h : Host F) : Input → List UInt32
  | .frame _ pkt (.stream f) => if h.Opens pkt f then [h.conn.nextStreamID] else []
  | _ => []

def accepts (h : Host F) : Input → List UInt32
  | .acceptStream => h.conn.incomingStreams.head?.toList
  | _ => []

omit [Float64 F] in
theorem incomingStreams_streamFor (pkt : Packet) (f : StreamFrame) :
    (h.conn.streamFor pkt.destinationStreamID pkt.sourceStreamID f).1.incomingStreams =
      if h.Opens pkt f then offer 16 h.conn.incomingStreams h.conn.nextStreamID
      else h.conn.incomingStreams := by
  unfold Connection.streamFor
  split
  · rename_i s found
    rw [if_neg]
    intro opens
    cases found.symm.trans opens.1
  · rename_i missing
    by_cases starts : pkt.sourceStreamID ≠ 0 ∧ (f.isSyn ∨ f.data.length > 0)
    · have opens : h.Opens pkt f := ⟨missing, starts⟩
      rw [if_pos starts, if_pos opens]
      rfl
    · have none : ¬ h.Opens pkt f := fun opens => starts opens.2
      rw [if_neg starts, if_neg none]

omit [Float64 F] in
/-- A STREAM frame queues the stream it opens, if it opens one. -/
theorem incomingStreams_handleStreamFrame (now : Time) (pkt : Packet) (f : StreamFrame) :
    (h.conn.handleStreamFrame now pkt f).incomingStreams =
      if h.Opens pkt f then offer 16 h.conn.incomingStreams h.conn.nextStreamID
      else h.conn.incomingStreams := by
  rw [Connection.handleStreamFrame_eq, ← incomingStreams_streamFor]
  split
  · rename_i c found
    rw [found]
  · rename_i c s found
    rw [found]
    exact congrArg Intake.incomingStreams (Connection.intake_deliver now s f)

/-- The steps that take something in, hand it on or drop it. -/
def deals : Input → Bool
  | .frame _ _ (.stream _) | .frame _ _ (.connectionClose _) | .note .. | .ackTimer ..
  | .idleCheck _ | .acceptStream | .close .. => true
  | _ => false

theorem intake_step {input : Input} (taken : h.step input = some h') (aside : deals input = false) :
    h'.conn.intake = h.conn.intake := by
  cases input with
  | frame now pkt f =>
    obtain rfl := Option.some.inj taken
    apply Connection.intake_handleFrame
    · rintro g rfl
      cases aside
    · rintro g rfl
      cases aside
  | observeAddr now addr challenge =>
    obtain rfl := Option.some.inj taken
    show (h.conn.observeAddr now addr challenge).1.intake = _
    unfold Connection.observeAddr
    repeat' split
    all_goals rfl
  | sendChallenge i =>
    simp only [step, Option.bind_eq_bind, Option.bind_eq_some_iff] at taken
    obtain ⟨_, -, out⟩ := taken
    obtain rfl := Option.some.inj out
    exact Connection.intake_sendControlTo _ _
  | lossTimer now =>
    obtain rfl := Option.some.inj taken
    exact (Connection.keeps_onLossTimer now).intake
  | pto now =>
    obtain rfl := Option.some.inj taken
    exact (Connection.sends_onPtoTimeout now).toKeeps.intake
  | flushLost now =>
    obtain rfl := Option.some.inj taken
    exact (Connection.sends_flushLost now).toKeeps.intake
  | openStream =>
    obtain rfl := Option.some.inj taken
    show h.conn.openStream.1.intake = _
    unfold Connection.openStream
    repeat' split
    all_goals rfl
  | write now id entering data =>
    obtain ⟨out, written, rfl⟩ := Option.map_eq_some_iff.mp taken
    exact Connection.intake_writeBatch now written
  | writeBlocked now id =>
    obtain ⟨c, blocked, rfl⟩ := Option.map_eq_some_iff.mp taken
    exact Connection.intake_writeBlocked now blocked
  | read now id size expired =>
    obtain ⟨out, read, rfl⟩ := Option.map_eq_some_iff.mp taken
    exact Connection.intake_read now read
  | closeStream now id =>
    obtain ⟨c, called, rfl⟩ := Option.map_eq_some_iff.mp taken
    exact Connection.intake_callStream now called
  | resetStream now id code =>
    obtain ⟨c, called, rfl⟩ := Option.map_eq_some_iff.mp taken
    exact Connection.intake_callStream now called
  | ping now | migrate now =>
    obtain rfl := Option.some.inj taken
    exact Connection.intake_sendFrames now _
  | answer i =>
    simp only [step, Option.bind_eq_bind, Option.bind_eq_some_iff] at taken
    obtain ⟨_, -, c, finished, out⟩ := taken
    obtain rfl := Option.some.inj out
    obtain ⟨resp, -, rfl⟩ := Connection.finishPathMigration_eq_some finished
    dsimp only
    split <;> rfl
  | arrive | giveUp =>
    obtain rfl := Option.some.inj taken
    rfl
  | note | ackTimer | idleCheck | acceptStream | close => cases aside

/-- Every step but the two that move the queue leaves it alone. -/
theorem incomingStreams_step {input : Input} (taken : h.step input = some h')
    (stream : ∀ now pkt f, input ≠ .frame now pkt (.stream f)) (accept : input ≠ .acceptStream) :
    h'.conn.incomingStreams = h.conn.incomingStreams := by
  by_cases aside : deals input = false
  · exact congrArg Intake.incomingStreams (intake_step taken aside)
  cases input with
  | frame now pkt f =>
    obtain rfl := Option.some.inj taken
    cases f with
    | stream g => exact absurd rfl (stream now pkt g)
    | connectionClose g => exact Connection.incomingStreams_closeInternal now _ _ _
    | _ => exact absurd rfl aside
  | note now pkt =>
    rw [step] at taken
    split at taken
    · cases taken
    · obtain rfl := Option.some.inj taken
      show (h.conn.noteReceived now pkt).incomingStreams = _
      unfold Connection.noteReceived
      dsimp only
      split
      · exact congrArg Intake.incomingStreams (Connection.intake_sendPacket now _ _ _)
      · split <;> rfl
  | ackTimer now src dst =>
    obtain rfl := Option.some.inj taken
    show (h.conn.ackTimerFired now src dst).incomingStreams = _
    unfold Connection.ackTimerFired
    dsimp only
    split
    · rfl
    · exact congrArg Intake.incomingStreams (Connection.intake_sendPacket now _ _ _)
  | idleCheck now =>
    rw [step, Connection.onIdleCheck] at taken
    obtain rfl := Option.some.inj taken
    split
    · exact Connection.incomingStreams_closeInternal now _ _ _
    · rfl
  | close now code reason =>
    obtain rfl := Option.some.inj taken
    exact Connection.incomingStreams_closeInternal now _ _ _
  | acceptStream => exact absurd rfl accept
  | _ => exact absurd rfl aside

/-- What a step does at the desk where the peer's streams are handed over. -/
theorem desk_step {input : Input} (taken : h.step input = some h') (opened accepted : List UInt32) :
    Desk.Step 16 ⟨opened, h.conn.incomingStreams, accepted⟩
      ⟨opened ++ h.opens input, h'.conn.incomingStreams, accepted ++ h.accepts input⟩ := by
  by_cases stream : ∃ now pkt f, input = .frame now pkt (.stream f)
  · obtain ⟨now, pkt, f, rfl⟩ := stream
    obtain rfl := Option.some.inj taken
    show Desk.Step 16 _ ⟨_, (h.conn.handleStreamFrame now pkt f).incomingStreams, _⟩
    have none : h.accepts (.frame now pkt (.stream f)) = [] := rfl
    rw [incomingStreams_handleStreamFrame, none, List.append_nil, opens]
    split
    · exact .enter ⟨opened, h.conn.incomingStreams, accepted⟩ h.conn.nextStreamID
    · rw [List.append_nil]
      exact .rest _
  · have other : ∀ now pkt f, input ≠ .frame now pkt (.stream f) :=
      fun now pkt f same => stream ⟨now, pkt, f, same⟩
    have nothing : h.opens input = [] := by
      unfold opens
      split
      · exact absurd rfl (other _ _ _)
      · rfl
    rw [nothing, List.append_nil]
    by_cases accept : input = .acceptStream
    · subst accept
      obtain ⟨out, handed, rfl⟩ := Option.map_eq_some_iff.mp taken
      obtain ⟨id, rest, front, rfl⟩ := Connection.acceptStream_eq_some handed
      rw [accepts, front]
      exact .take ⟨opened, id :: rest, accepted⟩ id rest rfl
    · have none : h.accepts input = [] := by
        unfold accepts
        split
        · exact absurd rfl accept
        · rfl
      rw [none, List.append_nil, incomingStreams_step taken other accept]
      exact .rest _

end Host

end Udx

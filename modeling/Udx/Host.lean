import Udx.Lib.Runs
import Udx.Serving

set_option autoImplicit false

/- A connection under everything that can happen to it. `HandlePacket` works
frame by frame, without a lock across them, so a packet's arrival, each of its
frames and its acknowledgment are steps of their own and anything may come
between them. A timer's callback may run at any time: stopping a timer does not
stop a callback that is on its way. -/

namespace Udx

/-- A connection and the goroutines beside it: those `observeAddr` has started,
with the challenge each is to send and where to, and the callers of
`InitiatePathMigration`, with the challenge each waits to see answered and where
it wants to move. -/
structure Host (F : Type) where
  conn : Connection F
  challenges : List (Vector UInt8 8 × Addr) := []
  callers : List (Vector UInt8 8 × Addr) := []

inductive Host.Input where
  | arrive (now : Time) (pkt : Packet)
  | frame (now : Time) (pkt : Packet) (f : Frame)
  | note (now : Time) (pkt : Packet)
  | observeAddr (now : Time) (addr : Option Addr) (challenge : Option (Vector UInt8 8))
  | sendChallenge (i : Nat)
  | ackTimer (now : Time) (srcStreamID dstStreamID : UInt32)
  | lossTimer (now : Time)
  | pto (now : Time)
  | flushLost (now : Time)
  | idleCheck (now : Time)
  | openStream
  | acceptStream
  | write (now : Time) (id : UInt32) (entering : Bool) (data : List UInt8)
  | writeBlocked (now : Time) (id : UInt32)
  | read (now : Time) (id : UInt32) (size : Nat) (expired : Bool)
  | closeStream (now : Time) (id : UInt32)
  | resetStream (now : Time) (id : UInt32) (code : UInt32)
  | ping (now : Time)
  | close (now : Time) (code : UInt32) (reason : List UInt8)
  | migrate (now : Time) (newAddr : Addr) (challenge : Vector UInt8 8)
  | answer (i : Nat)
  | giveUp (i : Nat)

variable {F : Type} [Float64 F]

namespace Connection

variable (c : Connection F)

/-- `HandlePacket` before the first frame. -/
def arrive (now : Time) (pkt : Packet) : Connection F :=
  let size := if pkt.wireLen = 0 then (marshalPacket pkt).length else pkt.wireLen
  { c with bytesReceived := c.bytesReceived + size, lastActivity := now }

theorem handlePacket_eq (now : Time) (pkt : Packet) :
    c.handlePacket now pkt =
      let c := pkt.frames.foldl (handleFrame now pkt) (c.arrive now pkt)
      if !isDataBearing pkt && !isNumberedProbe pkt then c else c.noteReceived now pkt := rfl

omit [Float64 F] in
theorem wire_sendControlTo (frames : List Frame) (addr : Addr) :
    (c.sendControlTo frames addr).wire = ⟨c.packet 0 0 0 frames, addr, false⟩ :: c.wire := rfl

omit [Float64 F] in
theorem state_sendControlTo (frames : List Frame) (addr : Addr) :
    (c.sendControlTo frames addr).state = c.state := rfl

omit [Float64 F] in
theorem path_sendControlTo (frames : List Frame) (addr : Addr) :
    (c.sendControlTo frames addr).path = c.path := rfl

end Connection

namespace Host

def newHost (localCID remoteCID : ConnectionID) (remoteAddr : Addr) (isInitiator : Bool)
    (addrValidated : Bool) (now : Time) : Host F :=
  { conn := newConnection localCID remoteCID remoteAddr isInitiator addrValidated now }

def step (h : Host F) : Input → Option (Host F)
  | .arrive now pkt => some { h with conn := h.conn.arrive now pkt }
  | .frame now pkt f => some { h with conn := h.conn.handleFrame now pkt f }
  | .note now pkt =>
    if !isDataBearing pkt && !isNumberedProbe pkt then none
    else some { h with conn := h.conn.noteReceived now pkt }
  | .observeAddr now addr challenge =>
    let (c, started) := h.conn.observeAddr now addr challenge
    some { h with conn := c, challenges := h.challenges ++ started.toList }
  | .sendChallenge i => do
    let (challenge, addr) ← h.challenges[i]?
    return { h with
      conn := h.conn.sendControlTo [.pathChallenge challenge] addr
      challenges := h.challenges.eraseIdx i }
  | .ackTimer now src dst => some { h with conn := h.conn.ackTimerFired now src dst }
  | .lossTimer now => some { h with conn := h.conn.onLossTimer now }
  | .pto now => some { h with conn := h.conn.onPtoTimeout now }
  | .flushLost now => some { h with conn := h.conn.flushLost now }
  | .idleCheck now => some { h with conn := h.conn.onIdleCheck now }
  | .openStream => some { h with conn := h.conn.openStream.1 }
  | .acceptStream => h.conn.acceptStream.map fun out => { h with conn := out.1 }
  | .write now id entering data =>
    (h.conn.writeBatch now id entering data).map fun out => { h with conn := out.1 }
  | .writeBlocked now id => (h.conn.writeBlocked now id).map fun c => { h with conn := c }
  | .read now id size expired =>
    (h.conn.read now id size expired).map fun out => { h with conn := out.1 }
  | .closeStream now id => (h.conn.closeStream now id).map fun c => { h with conn := c }
  | .resetStream now id code => (h.conn.resetStream now id code).map fun c => { h with conn := c }
  | .ping now => some { h with conn := h.conn.ping now }
  | .close now code reason => some { h with conn := h.conn.closeInternal now code reason true }
  | .migrate now newAddr challenge =>
    some { h with
      conn := h.conn.initiatePathMigration now challenge
      callers := h.callers ++ [(challenge, newAddr)] }
  | .answer i => do
    let (challenge, newAddr) ← h.callers[i]?
    let c ← h.conn.finishPathMigration newAddr challenge
    return { h with conn := c, callers := h.callers.eraseIdx i }
  | .giveUp i => some { h with callers := h.callers.eraseIdx i }

def packet (now : Time) (pkt : Packet) : List Input :=
  .arrive now pkt :: pkt.frames.map (.frame now pkt) ++
    if !isDataBearing pkt && !isNumberedProbe pkt then [] else [.note now pkt]

theorem run_frames (h : Host F) (now : Time) (pkt : Packet) (frames : List Frame) :
    Runs.run step h (frames.map (.frame now pkt)) =
      some { h with conn := frames.foldl (Connection.handleFrame now pkt) h.conn } := by
  induction frames generalizing h with
  | nil => rfl
  | cons f rest ih => exact ih { h with conn := h.conn.handleFrame now pkt f }

/-- The steps of a packet, taken in a row, are `HandlePacket`. -/
theorem run_packet (h : Host F) (now : Time) (pkt : Packet) :
    Runs.run step h (packet now pkt) = some { h with conn := h.conn.handlePacket now pkt } := by
  rw [packet, List.cons_append, Runs.run_cons]
  show Runs.run step { h with conn := h.conn.arrive now pkt } _ = _
  rw [Runs.run_append, run_frames, Option.bind_some, Connection.handlePacket_eq]
  dsimp only
  split
  · rfl
  · rename_i noted
    show (step _ (.note now pkt)).bind _ = _
    rw [step, if_neg noted]
    rfl

inductive Effect (h : Host F) : Input → Host F → Prop
  | serve {input : Input} {c : Connection F} (callers : List (Vector UInt8 8 × Addr))
    (changes : h.conn.Changes c) : Effect h input { h with conn := c, callers := callers }
  | openStream (opened : h.conn.state ≠ .closed ∧ h.conn.state ≠ .closing)
    (room : h.conn.streams.entries.length < h.conn.maxStreams) :
    Effect h .openStream { h with conn := h.conn.enter 0 .idle }
  | enter {c : Connection F} (now : Time) (pkt : Packet) (f : StreamFrame)
    (missing : h.conn.findStream pkt.destinationStreamID pkt.sourceStreamID = none)
    (source : pkt.sourceStreamID ≠ 0) (opens : f.isSyn ∨ f.data.length > 0)
    (changes : (h.conn.enter pkt.sourceStreamID .opened).Changes c) :
    Effect h (.frame now pkt (.stream f)) { h with conn := c }
  | raise (now : Time) (pkt : Packet) (count : UInt32) (more : h.conn.maxStreams < count.toNat) :
    Effect h (.frame now pkt (.maxStreams count))
      { h with conn := { h.conn with maxStreams := count.toNat } }
  | close {input : Input} (now : Time) (code : UInt32) (reason : List UInt8) (announce : Bool) :
    Effect h input { h with conn := h.conn.closeInternal now code reason announce }
  | arrive (now : Time) (pkt : Packet) :
    Effect h (.arrive now pkt) { h with conn := h.conn.arrive now pkt }
  | ack (now : Time) (pkt : Packet) (f : AckFrame) :
    Effect h (.frame now pkt (.ack f)) { h with conn := h.conn.handleAckFrame now f }
  | move (now : Time) (pkt : Packet) (addr : Addr) (pending : h.conn.pendingAddr = some addr) :
    Effect h (.frame now pkt (.pathResponse h.conn.pendingChallenge))
      { h with
        conn := { h.conn with remoteAddr := addr, addrValidated := true, pendingAddr := none } }
  | respond (now : Time) (pkt : Packet) (data : Vector UInt8 8) :
    Effect h (.frame now pkt (.pathResponse data))
      { h with
        conn := { h.conn with pathChallengeResp := h.conn.pathChallengeResp <|> some data } }
  | pend (now : Time) (addr : Addr) (challenge : Vector UInt8 8) :
    Effect h (.observeAddr now (some addr) (some challenge))
      { h with
        conn := { h.conn with
          pendingAddr := some addr, pendingChallenge := challenge, pendingSentAt := now }
        challenges := h.challenges ++ [(challenge, addr)] }
  | challenge (i : Nat) (challenge : Vector UInt8 8) (addr : Addr)
    (present : h.challenges[i]? = some (challenge, addr)) :
    Effect h (.sendChallenge i)
      { h with
        conn := h.conn.sendControlTo [.pathChallenge challenge] addr
        challenges := h.challenges.eraseIdx i }
  | reject (i : Nat) :
    Effect h (.answer i)
      { h with
        conn := { h.conn with pathChallengeResp := none }, callers := h.callers.eraseIdx i }
  | finish (i : Nat) (challenge : Vector UInt8 8) (newAddr : Addr)
    (waits : h.callers[i]? = some (challenge, newAddr))
    (answered : h.conn.pathChallengeResp = some challenge) :
    Effect h (.answer i)
      { h with
        conn := { h.conn with
          pathChallengeResp := none, remoteAddr := newAddr, addrValidated := true }
        callers := h.callers.eraseIdx i }

variable {h h' : Host F}

theorem effect_openStream : Effect h .openStream { h with conn := h.conn.openStream.1 } := by
  unfold Connection.openStream
  split
  · exact .serve h.callers .refl
  · rename_i opened
    split
    · exact .serve h.callers .refl
    · rename_i room
      exact .openStream (not_or.mp opened) (by omega)

theorem effect_pathResponse (now : Time) (pkt : Packet) (data : Vector UInt8 8) :
    Effect h (.frame now pkt (.pathResponse data))
      { h with conn := h.conn.handleFrame now pkt (.pathResponse data) } := by
  simp only [Connection.handleFrame, Connection.completeMigration]
  cases pending : h.conn.pendingAddr with
  | none => exact .respond now pkt data
  | some addr =>
    by_cases answers : data = h.conn.pendingChallenge
    · subst answers
      simpa using Effect.move now pkt addr pending
    · simpa [answers] using Effect.respond now pkt data

theorem effect_frame (now : Time) (pkt : Packet) (f : Frame) :
    Effect h (.frame now pkt f) { h with conn := h.conn.handleFrame now pkt f } := by
  by_cases stream : ∃ g, f = .stream g
  · obtain ⟨g, rfl⟩ := stream
    rcases Connection.changes_handleStreamFrame now pkt g with changes |
      ⟨missing, source, opens, changes⟩
    · exact .serve h.callers changes
    · exact .enter now pkt g missing source opens changes
  by_cases ack : ∃ g, f = .ack g
  · obtain ⟨g, rfl⟩ := ack
    exact .ack now pkt g
  by_cases response : ∃ data, f = .pathResponse data
  · obtain ⟨data, rfl⟩ := response
    exact effect_pathResponse now pkt data
  by_cases limit : ∃ count, f = .maxStreams count
  · obtain ⟨count, rfl⟩ := limit
    unfold Connection.handleFrame
    dsimp only
    split
    · rename_i more
      exact .raise now pkt count more
    · exact .serve h.callers .refl
  by_cases close : ∃ g, f = .connectionClose g
  · obtain ⟨g, rfl⟩ := close
    exact .close now errorNoError [] true
  · exact .serve h.callers (Connection.changes_handleFrame now pkt (not_exists.mp stream)
      (not_exists.mp ack) (not_exists.mp response) (not_exists.mp limit) (not_exists.mp close))

theorem effect_observeAddr (now : Time) (addr : Option Addr)
    (challenge : Option (Vector UInt8 8)) :
    Effect h (.observeAddr now addr challenge)
      { h with
        conn := (h.conn.observeAddr now addr challenge).1
        challenges := h.challenges ++ (h.conn.observeAddr now addr challenge).2.toList } := by
  have still : Effect h (.observeAddr now addr challenge)
      { h with challenges := h.challenges ++ [] } := by
    rw [List.append_nil]
    exact .serve h.callers .refl
  unfold Connection.observeAddr
  split
  · exact still
  · split
    · exact still
    · split
      · exact still
      · split
        · exact still
        · exact .pend now _ _

theorem effect_answer {i : Nat} (taken : h.step (.answer i) = some h') :
    Effect h (.answer i) h' := by
  simp only [step, Option.bind_eq_bind, Option.bind_eq_some_iff] at taken
  obtain ⟨⟨challenge, newAddr⟩, waits, c, finished, out⟩ := taken
  obtain rfl := Option.some.inj out
  obtain ⟨resp, answered, rfl⟩ := Connection.finishPathMigration_eq_some finished
  by_cases other : resp ≠ challenge
  · rw [if_pos other]
    exact .reject i
  · rw [if_neg other]
    obtain rfl := not_not.mp other
    exact .finish i resp newAddr waits answered

theorem step_effect {input : Input} (taken : h.step input = some h') : Effect h input h' := by
  cases input with
  | arrive now pkt =>
    obtain rfl := Option.some.inj taken
    exact .arrive now pkt
  | frame now pkt f =>
    obtain rfl := Option.some.inj taken
    exact effect_frame now pkt f
  | note now pkt =>
    rw [step] at taken
    split at taken
    · cases taken
    · obtain rfl := Option.some.inj taken
      exact .serve h.callers (Connection.changes_noteReceived now pkt)
  | observeAddr now addr challenge =>
    obtain rfl := Option.some.inj taken
    exact effect_observeAddr now addr challenge
  | sendChallenge i =>
    simp only [step, Option.bind_eq_bind, Option.bind_eq_some_iff] at taken
    obtain ⟨⟨challenge, addr⟩, present, out⟩ := taken
    obtain rfl := Option.some.inj out
    exact .challenge i challenge addr present
  | ackTimer now src dst =>
    obtain rfl := Option.some.inj taken
    exact .serve h.callers (Connection.changes_ackTimerFired now src dst)
  | lossTimer now =>
    obtain rfl := Option.some.inj taken
    exact .serve h.callers (Connection.changes_onLossTimer now)
  | pto now =>
    obtain rfl := Option.some.inj taken
    exact .serve h.callers (.sends (Connection.sends_onPtoTimeout now))
  | flushLost now =>
    obtain rfl := Option.some.inj taken
    exact .serve h.callers (.sends (Connection.sends_flushLost now))
  | idleCheck now =>
    rw [step, Connection.onIdleCheck] at taken
    obtain rfl := Option.some.inj taken
    split
    · exact .close now errorConnectionTimeout [] false
    · exact .serve h.callers .refl
  | openStream =>
    obtain rfl := Option.some.inj taken
    exact effect_openStream
  | acceptStream =>
    obtain ⟨out, accepted, rfl⟩ := Option.map_eq_some_iff.mp taken
    exact .serve h.callers (Connection.changes_acceptStream accepted)
  | write now id entering data =>
    obtain ⟨out, written, rfl⟩ := Option.map_eq_some_iff.mp taken
    exact .serve h.callers (Connection.changes_writeBatch now written)
  | writeBlocked now id =>
    obtain ⟨c, blocked, rfl⟩ := Option.map_eq_some_iff.mp taken
    exact .serve h.callers (Connection.changes_writeBlocked now blocked)
  | read now id size expired =>
    obtain ⟨out, read, rfl⟩ := Option.map_eq_some_iff.mp taken
    exact .serve h.callers (Connection.changes_read now read)
  | closeStream now id =>
    obtain ⟨c, called, rfl⟩ := Option.map_eq_some_iff.mp taken
    exact .serve h.callers (Connection.changes_callStream now Stream.ids_close called)
  | resetStream now id code =>
    obtain ⟨c, called, rfl⟩ := Option.map_eq_some_iff.mp taken
    exact .serve h.callers (Connection.changes_callStream now (fun s => s.ids_reset code) called)
  | ping now =>
    obtain rfl := Option.some.inj taken
    exact .serve h.callers (Connection.changes_sendFrames now rfl)
  | close now code reason =>
    obtain rfl := Option.some.inj taken
    exact .close now code reason true
  | migrate now newAddr challenge =>
    obtain rfl := Option.some.inj taken
    have plain : [Frame.pathChallenge challenge].any Frame.directed = false := rfl
    exact .serve _ (Connection.changes_sendFrames now plain)
  | answer i => exact effect_answer taken
  | giveUp i =>
    obtain rfl := Option.some.inj taken
    exact .serve _ .refl

end Host

end Udx

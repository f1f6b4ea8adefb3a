import Udx.Outgoing

set_option autoImplicit false

/- When a packet is acknowledged. The ACK timer's callbacks are kept beside the
connection: stopping a timer may come too late for its callback, which then runs
although the connection has forgotten the timer or set another one. -/

namespace Udx

namespace Connection

variable {F : Type} (c : Connection F) (now : Time) (pkt : Packet)

/-- `noteReceived` before its decision. -/
def recorded : Connection F :=
  let recvd := (c.recvd.add pkt.sequence).1
  { c with
    recvd := recvd
    largestArrival :=
      if !c.recvd.any || recvd.largest != c.recvd.largest then some now else c.largestArrival
    ackPending := c.ackPending + 1 }

def ackPacket (dstStreamID srcStreamID : UInt32) : Packet :=
  c.packet 0 dstStreamID srcStreamID [.ack (c.takeAckLocked now).2]

def acknowledge (dstStreamID srcStreamID : UInt32) : Connection F :=
  (c.takeAckLocked now).1.sendPacket now dstStreamID srcStreamID [.ack (c.takeAckLocked now).2]

def urgent : Bool := (c.recvd.add pkt.sequence).2 || pkt.frames.any edge

theorem acknowledge_eq (dstStreamID srcStreamID : UInt32) :
    c.acknowledge now dstStreamID srcStreamID =
      if c.limited (marshalPacket (c.ackPacket now dstStreamID srcStreamID)).length then
        (c.takeAckLocked now).1
      else (c.takeAckLocked now).1.put true (c.ackPacket now dstStreamID srcStreamID) := rfl

/-- The ways `noteReceived` can go. -/
inductive Noted : Connection F → Prop
  | now (due : c.urgent pkt = true ∨ ackElicitingThreshold ≤ c.ackPending + 1) :
    Noted ((c.recorded now pkt).acknowledge now pkt.sourceStreamID pkt.destinationStreamID)
  | armed (early : c.urgent pkt = false) (few : c.ackPending + 1 < ackElicitingThreshold)
    (idle : c.ackTimer = none) (fires : Time) :
    Noted { c.recorded now pkt with
      ackTimer := some ⟨fires, pkt.sourceStreamID, pkt.destinationStreamID⟩ }
  | waits (early : c.urgent pkt = false) (few : c.ackPending + 1 < ackElicitingThreshold)
    (timer : AckTimer) (set : c.ackTimer = some timer) : Noted (c.recorded now pkt)

theorem noted_noteReceived : c.Noted now pkt (c.noteReceived now pkt) := by
  unfold noteReceived
  dsimp only
  split
  · rename_i due
    rw [Bool.or_eq_true, decide_eq_true_eq] at due
    exact .now due
  · rename_i later
    rw [Bool.or_eq_true, decide_eq_true_eq, not_or, Bool.not_eq_true] at later
    split
    · rename_i idle
      exact .armed later.1 (by omega) idle _
    · rename_i set
      obtain ⟨timer, set⟩ := Option.ne_none_iff_exists'.mp set
      exact .waits later.1 (by omega) timer set

/-- Everything that is received is acknowledged or pending in `b` as it is in `a`. -/
structure Level (a b : Connection F) : Prop where
  state : b.state = a.state
  recvd : b.recvd = a.recvd
  pending : b.ackPending = a.ackPending
  timer : b.ackTimer = a.ackTimer

namespace Level

variable {a b d : Connection F}

theorem refl : Level a a := ⟨rfl, rfl, rfl, rfl⟩

theorem trans (first : Level a b) (second : Level b d) : Level a d :=
  ⟨second.state.trans first.state, second.recvd.trans first.recvd,
    second.pending.trans first.pending, second.timer.trans first.timer⟩

theorem of_intake (state : b.state = a.state) (same : b.intake = a.intake) : Level a b :=
  ⟨state, congrArg Intake.recvd same, congrArg Intake.ackPending same,
    congrArg Intake.ackTimer same⟩

end Level

theorem state_closeInternal (code : UInt32) (reason : List UInt8) (announce : Bool) :
    (c.closeInternal now code reason announce).state = .closed := by
  have kept (streams : List Stream) (d : Connection F) :
      (streams.foldl (fun d s => d.setStream (s.deliverReset code)) d).state = d.state := by
    induction streams generalizing d with
    | nil => rfl
    | cons s rest ih => exact ih _
  rw [closeInternal_eq]
  split
  · assumption
  · exact kept _ _

theorem level_handleStreamFrame (f : StreamFrame)
    (state : (c.handleStreamFrame now pkt f).state = c.state) :
    Level c (c.handleStreamFrame now pkt f) := by
  have found : (c.streamFor pkt.destinationStreamID pkt.sourceStreamID f).1.recvd = c.recvd ∧
      (c.streamFor pkt.destinationStreamID pkt.sourceStreamID f).1.ackPending = c.ackPending ∧
      (c.streamFor pkt.destinationStreamID pkt.sourceStreamID f).1.ackTimer = c.ackTimer := by
    unfold streamFor
    repeat' split
    all_goals exact ⟨rfl, rfl, rfl⟩
  suffices same : (c.handleStreamFrame now pkt f).recvd = c.recvd ∧
      (c.handleStreamFrame now pkt f).ackPending = c.ackPending ∧
      (c.handleStreamFrame now pkt f).ackTimer = c.ackTimer from
    ⟨state, same.1, same.2.1, same.2.2⟩
  rw [handleStreamFrame_eq]
  split
  · rename_i d same
    rwa [same] at found
  · rename_i d s same
    rw [same] at found
    have delivered := intake_deliver (c := d) now s f
    exact ⟨(congrArg Intake.recvd delivered).trans found.1,
      (congrArg Intake.ackPending delivered).trans found.2.1,
      (congrArg Intake.ackTimer delivered).trans found.2.2⟩

end Connection

namespace Host

variable {F : Type} [Float64 F] {h h' : Host F}

theorem state_step {input : Input} (taken : h.step input = some h') :
    h'.conn.state = h.conn.state ∨ h'.conn.state = .closed := by
  cases step_effect taken with
  | serve callers changes => exact .inl changes.state
  | enter now pkt f missing source opens changes => exact .inl changes.state
  | close now code reason announce =>
    exact .inr (Connection.state_closeInternal _ now code reason announce)
  | ack now pkt f =>
    exact .inl (congrArg Connection.Endpoint.state (Connection.keeps_handleAckFrame now f).endpoint)
  | challenge i challenge addr present => exact .inl (Connection.state_sendControlTo _ _ _)
  | openStream | raise | arrive | move | respond | pend | reject | finish => exact .inl rfl

theorem validated_step {input : Input} (validated : h.conn.addrValidated = true)
    (taken : h.step input = some h') : h'.conn.addrValidated = true := by
  have kept {c : Connection F} (path : c.path = h.conn.path) : c.addrValidated = true :=
    (congrArg Connection.Path.addrValidated path).trans validated
  cases step_effect taken with
  | serve callers changes => exact kept changes.serves.path
  | enter now pkt f missing source opens changes => exact kept changes.serves_entered.path
  | close now code reason announce =>
    exact kept (Connection.serves_closeInternal now code reason announce).path
  | ack now pkt f => exact kept (Connection.keeps_handleAckFrame now f).delivers.path
  | challenge i challenge addr present => exact kept (Connection.path_sendControlTo _ _ _)
  | move | finish => rfl
  | openStream | raise | arrive | respond | pend | reject => exact validated

end Host

namespace Connection

variable {F : Type} [Float64 F] {c : Connection F} (now : Time) (pkt : Packet)

theorem level_handleFrame (f : Frame) (opened : (c.handleFrame now pkt f).state ≠ .closed) :
    Level c (c.handleFrame now pkt f) := by
  have taken : Host.step { conn := c } (.frame now pkt f) =
    some { conn := c.handleFrame now pkt f } := rfl
  have state : (c.handleFrame now pkt f).state = c.state :=
    (Host.state_step taken).resolve_right opened
  by_cases stream : ∃ g, f = .stream g
  · obtain ⟨g, rfl⟩ := stream
    exact c.level_handleStreamFrame now pkt g state
  by_cases close : ∃ g, f = .connectionClose g
  · obtain ⟨g, rfl⟩ := close
    exact absurd (c.state_closeInternal now errorNoError [] true) opened
  · exact .of_intake state
      (intake_handleFrame now pkt (not_exists.mp stream) (not_exists.mp close))

theorem level_frames (frames : List Frame)
    (opened : (frames.foldl (handleFrame now pkt) c).state ≠ .closed) :
    Level c (frames.foldl (handleFrame now pkt) c) := by
  induction frames generalizing c with
  | nil => exact .refl
  | cons f rest ih =>
    have later := ih opened
    have still : (c.handleFrame now pkt f).state ≠ .closed := fun closed =>
      opened (later.state.trans closed)
    exact (level_handleFrame now pkt f still).trans later

/-- The connection once a packet's frames are handled. -/
def handled (c : Connection F) : Connection F :=
  pkt.frames.foldl (handleFrame now pkt) (c.arrive now pkt)

/-- The anti-amplification limit holds back the ACK for the packet. -/
def ackHeld (c : Connection F) : Bool :=
  let c := (c.handled now pkt).recorded now pkt
  c.limited (marshalPacket (c.ackPacket now pkt.sourceStreamID pkt.destinationStreamID)).length

theorem level_handled (opened : (c.handled now pkt).state ≠ .closed) :
    Level c (c.handled now pkt) :=
  have arrived : Level c (c.arrive now pkt) := ⟨rfl, rfl, rfl, rfl⟩
  arrived.trans (level_frames now pkt pkt.frames opened)

theorem validated_handled (validated : c.addrValidated = true) :
    (c.handled now pkt).addrValidated = true := by
  have run : Runs.run Host.step { conn := c } (.arrive now pkt :: pkt.frames.map (.frame now pkt)) =
      some { conn := c.handled now pkt } := by
    rw [Runs.run_cons]
    exact Host.run_frames { conn := c.arrive now pkt } now pkt pkt.frames
  exact Runs.invariant_of_forall (fun h : Host F => h.conn.addrValidated = true)
    (fun _ _ _ => Host.validated_step) validated run

theorem noAck_handled : NoAck c (c.handled now pkt) :=
  have arrived : NoAck c (c.arrive now pkt) := .quiet rfl rfl
  arrived.trans (.foldl fun _ f _ => noAck_handleFrame now pkt f)

end Connection

/-- Packets that are to be acknowledged. -/
def elicits (pkt : Packet) : Bool := isDataBearing pkt || isNumberedProbe pkt

def ackFrames (wire : List Datagram) : Nat :=
  (wire.map fun d => d.packet.frames.countP Frame.isAck).sum

theorem ackFrames_append (later earlier : List Datagram) :
    ackFrames (later ++ earlier) = ackFrames later + ackFrames earlier := by
  rw [ackFrames, List.map_append, List.sum_append]
  rfl

theorem ackFrames_eq_zero {sent : List Datagram} (free : ∀ d ∈ sent, AckFree d.packet.frames) :
    ackFrames sent = 0 := by
  apply List.sum_eq_zero
  intro n counted
  obtain ⟨d, member, rfl⟩ := List.mem_map.mp counted
  rw [List.countP_eq_zero]
  intro f inside isAck
  rw [free d member f inside] at isAck
  cases isAck

/-- The steps of `HandlePacket` and the ACK timer. -/
def Host.Input.receives : Host.Input → Bool
  | .arrive .. | .frame .. | .note .. | .ackTimer .. => true
  | _ => false

theorem Host.noAck_step {F : Type} [Float64 F] {h h' : Host F} {input : Host.Input}
    (taken : h.step input = some h') (aside : input.receives = false) :
    h.conn.NoAck h'.conn := by
  cases input with
  | observeAddr now addr challenge =>
    obtain rfl := Option.some.inj taken
    show h.conn.NoAck (h.conn.observeAddr now addr challenge).1
    unfold Connection.observeAddr
    repeat' split
    all_goals exact .quiet rfl rfl
  | sendChallenge i =>
    simp only [step, Option.bind_eq_bind, Option.bind_eq_some_iff] at taken
    obtain ⟨_, -, out⟩ := taken
    obtain rfl := Option.some.inj out
    exact Connection.noAck_sendControlTo _ (ackFree_singleton rfl)
  | lossTimer now =>
    obtain rfl := Option.some.inj taken
    exact Connection.noAck_onLossTimer now
  | pto now =>
    obtain rfl := Option.some.inj taken
    exact Connection.noAck_onPtoTimeout now
  | flushLost now =>
    obtain rfl := Option.some.inj taken
    exact Connection.noAck_flushLost now
  | idleCheck now =>
    rw [step, Connection.onIdleCheck] at taken
    obtain rfl := Option.some.inj taken
    split
    · exact Connection.noAck_closeInternal now _ _ _
    · exact .refl
  | openStream =>
    obtain rfl := Option.some.inj taken
    show h.conn.NoAck h.conn.openStream.1
    unfold Connection.openStream
    repeat' split
    all_goals exact .quiet rfl rfl
  | acceptStream =>
    obtain ⟨out, accepted, rfl⟩ := Option.map_eq_some_iff.mp taken
    obtain ⟨id, rest, -, rfl⟩ := Connection.acceptStream_eq_some accepted
    exact .quiet rfl rfl
  | write now id entering data =>
    obtain ⟨out, written, rfl⟩ := Option.map_eq_some_iff.mp taken
    exact Connection.noAck_writeBatch now written
  | writeBlocked now id =>
    obtain ⟨c, blocked, rfl⟩ := Option.map_eq_some_iff.mp taken
    exact Connection.noAck_writeBlocked now blocked
  | read now id size expired =>
    obtain ⟨out, read, rfl⟩ := Option.map_eq_some_iff.mp taken
    exact Connection.noAck_read now read
  | closeStream now id =>
    obtain ⟨c, called, rfl⟩ := Option.map_eq_some_iff.mp taken
    exact Connection.noAck_callStream now Connection.ackFree_close called
  | resetStream now id code =>
    obtain ⟨c, called, rfl⟩ := Option.map_eq_some_iff.mp taken
    exact Connection.noAck_callStream now (fun s => Connection.ackFree_reset s code) called
  | ping now | migrate now =>
    obtain rfl := Option.some.inj taken
    exact Connection.noAck_sendFrames now (ackFree_singleton rfl)
  | close now code reason =>
    obtain rfl := Option.some.inj taken
    exact Connection.noAck_closeInternal now _ _ _
  | answer i =>
    simp only [step, Option.bind_eq_bind, Option.bind_eq_some_iff] at taken
    obtain ⟨_, -, c, finished, out⟩ := taken
    obtain rfl := Option.some.inj out
    obtain ⟨resp, -, rfl⟩ := Connection.finishPathMigration_eq_some finished
    dsimp only
    split <;> exact .quiet rfl rfl
  | giveUp =>
    obtain rfl := Option.some.inj taken
    exact .refl
  | arrive | frame | note | ackTimer => cases aside

/-- A host, the ACK timer callbacks still to run, and how many packets that are to
be acknowledged have come. -/
structure AckDuty (F : Type) where
  host : Host F
  callbacks : List AckTimer := []
  elicited : Nat := 0

namespace AckDuty

inductive Step where
  /-- `HandlePacket`. If it stops the timer, `stopped` says whether that was in time. -/
  | packet (now : Time) (pkt : Packet) (stopped : Bool)
  /-- A callback runs. -/
  | fire (i : Nat) (now : Time)
  /-- Anything else a connection does. -/
  | other (input : Host.Input)

/-- The callbacks after the connection's timer has changed. -/
def rearmed (callbacks : List AckTimer) (stopped : Bool) :
    Option AckTimer → Option AckTimer → List AckTimer
  | none, some timer => callbacks ++ [timer]
  | some timer, none => if stopped then callbacks.erase timer else callbacks
  | _, _ => callbacks

variable {F : Type} [Float64 F]

/-- The run is over when the connection closes. -/
def step (t : AckDuty F) : Step → Option (AckDuty F)
  | .packet now pkt stopped =>
    let c := t.host.conn.handlePacket now pkt
    if c.state = .closed then none
    else some {
      host := { t.host with conn := c }
      callbacks := rearmed t.callbacks stopped t.host.conn.ackTimer c.ackTimer
      elicited := if elicits pkt then t.elicited + 1 else t.elicited }
  | .fire i now =>
    match t.callbacks[i]? with
    | some timer =>
      some { t with
        host := { t.host with
          conn := t.host.conn.ackTimerFired now timer.srcStreamID timer.dstStreamID }
        callbacks := t.callbacks.eraseIdx i }
    | none => none
  | .other input =>
    if input.receives then none
    else
      match t.host.step input with
      | some h => if h.conn.state = .closed then none else some { t with host := h }
      | none => none

def acks (t : AckDuty F) : Nat := ackFrames t.host.conn.wire

variable {t t' : AckDuty F} {now : Time} {pkt : Packet} {stopped : Bool}

omit [Float64 F] in
theorem acks_of_noAck {a b : Connection F} (free : a.pm.AckFree) (noAck : a.NoAck b) :
    b.pm.AckFree ∧ ackFrames b.wire = ackFrames a.wire := by
  obtain ⟨sent, wire, plain⟩ := noAck
  obtain ⟨kept, silent⟩ := plain free
  refine ⟨kept, ?_⟩
  rw [wire, ackFrames_append, ackFrames_eq_zero silent, Nat.zero_add]

omit [Float64 F] in
/-- Acknowledging clears what is pending and sends one ACK, unless it is held back. -/
theorem acknowledge_spec (c : Connection F) (now : Time) (dstStreamID srcStreamID : UInt32) :
    let c' := c.acknowledge now dstStreamID srcStreamID
    c'.ackPending = 0 ∧ c'.ackTimer = none ∧ c'.pm = c.pm ∧
      ackFrames c'.wire = ackFrames c.wire +
        if c.limited (marshalPacket (c.ackPacket now dstStreamID srcStreamID)).length then 0
        else 1 := by
  intro c'
  have shape : c' = _ := c.acknowledge_eq now dstStreamID srcStreamID
  split
  · rename_i held
    rw [shape, if_pos held]
    exact ⟨rfl, rfl, rfl, rfl⟩
  · rename_i free
    rw [shape, if_neg free]
    refine ⟨rfl, rfl, rfl, ?_⟩
    have sent : ((c.takeAckLocked now).1.put true (c.ackPacket now dstStreamID srcStreamID)).wire =
      [⟨c.ackPacket now dstStreamID srcStreamID, c.remoteAddr, true⟩] ++ c.wire := rfl
    rw [sent, ackFrames_append, Nat.add_comm]
    rfl

/-- What a packet does to the connection's duty. -/
inductive Answer (now : Time) (pkt : Packet) (t t' : AckDuty F) : Prop
  | aside (other : elicits pkt = false) (level : t.host.conn.Level t'.host.conn)
    (callbacks : t'.callbacks = t.callbacks) (silent : t'.acks = t.acks)
    (elicited : t'.elicited = t.elicited)
  | now (elicit : elicits pkt = true) (pending : t'.host.conn.ackPending = 0)
    (timer : t'.host.conn.ackTimer = none)
    (sent : t'.acks = t.acks + if t.host.conn.ackHeld now pkt then 0 else 1)
    (elicited : t'.elicited = t.elicited + 1)
  | later (elicit : elicits pkt = true) (early : t.host.conn.urgent pkt = false)
    (few : t.host.conn.ackPending + 1 < ackElicitingThreshold)
    (pending : t'.host.conn.ackPending = t.host.conn.ackPending + 1) (timer : AckTimer)
    (set : t'.host.conn.ackTimer = some timer)
    (callbacks : t.host.conn.ackTimer = some timer ∧ t'.callbacks = t.callbacks ∨
      timer ∈ t'.callbacks)
    (silent : t'.acks = t.acks) (elicited : t'.elicited = t.elicited + 1)

theorem handlePacket_of_elicits (c : Connection F) :
    c.handlePacket now pkt =
      if elicits pkt then (c.handled now pkt).noteReceived now pkt else c.handled now pkt := by
  have same : (!isDataBearing pkt && !isNumberedProbe pkt) = !elicits pkt := by
    rw [elicits, Bool.not_or]
  rw [Connection.handlePacket_eq, same]
  cases elicits pkt <;> rfl

omit [Float64 F] in
theorem rearmed_self (callbacks : List AckTimer) (stopped : Bool) (timer : Option AckTimer) :
    rearmed callbacks stopped timer timer = callbacks := by
  cases timer <;> rfl

theorem answer_packet (free : t.host.conn.pm.AckFree)
    (taken : t.step (.packet now pkt stopped) = some t') :
    t'.host.conn.pm.AckFree ∧ Answer now pkt t t' := by
  obtain ⟨kept, silent⟩ := acks_of_noAck free (Connection.noAck_handled now pkt)
  simp only [step] at taken
  split at taken
  · cases taken
  · rename_i opened
    cases taken
    generalize shape : t.host.conn.handlePacket now pkt = c at opened ⊢
    rw [handlePacket_of_elicits] at shape
    split at shape
    · rename_i elicit
      have state := (Connection.changes_noteReceived now pkt (c := t.host.conn.handled now pkt)).state
      rw [shape] at state
      have level := Connection.level_handled now pkt (state ▸ opened)
      have urgent : (t.host.conn.handled now pkt).urgent pkt = t.host.conn.urgent pkt := by
        rw [Connection.urgent, level.recvd]
        rfl
      have noted := (t.host.conn.handled now pkt).noted_noteReceived now pkt
      rw [shape] at noted
      cases noted with
      | now due =>
        obtain ⟨pending, timer, pm, sent⟩ := acknowledge_spec
          ((t.host.conn.handled now pkt).recorded now pkt) now pkt.sourceStreamID
          pkt.destinationStreamID
        refine ⟨pm ▸ kept, .now elicit pending timer ?_ (if_pos elicit)⟩
        exact sent.trans (congrArg (· + _) silent)
      | armed early few idle fires =>
        rw [urgent] at early
        rw [level.pending] at few
        refine ⟨kept, .later elicit early few (congrArg (· + 1) level.pending) _ rfl (.inr ?_) silent
          (if_pos elicit)⟩
        rw [← level.timer, idle]
        exact List.mem_append_right _ (List.mem_singleton_self _)
      | waits early few timer set =>
        rw [urgent] at early
        rw [level.pending] at few
        refine ⟨kept, .later elicit early few (congrArg (· + 1) level.pending) timer set
          (.inl ⟨level.timer ▸ set, ?_⟩) silent (if_pos elicit)⟩
        dsimp only
        rw [show ((t.host.conn.handled now pkt).recorded now pkt).ackTimer = _ from level.timer,
          rearmed_self]
    · rename_i other
      subst shape
      have level := Connection.level_handled now pkt opened
      refine ⟨kept, .aside (by simpa using other) level ?_ silent (if_neg other)⟩
      dsimp only
      rw [level.timer, rearmed_self]

theorem step_fire {i : Nat} (taken : t.step (.fire i now) = some t') :
    t'.host.conn.pm = t.host.conn.pm ∧ t'.host.conn.ackPending = 0 ∧
      t'.host.conn.ackTimer = none ∧ t'.elicited = t.elicited ∧
      t'.acks ≤ t.acks + t.host.conn.ackPending := by
  simp only [step] at taken
  split at taken
  · rename_i timer found
    cases taken
    unfold Connection.ackTimerFired
    dsimp only
    split
    · rename_i none
      exact ⟨rfl, none, rfl, rfl, Nat.le_add_right _ _⟩
    · rename_i some
      obtain ⟨pending, timer, pm, sent⟩ := acknowledge_spec
        { t.host.conn with ackTimer := none } now timer.srcStreamID timer.dstStreamID
      refine ⟨pm, pending, timer, rfl, ?_⟩
      have : t.host.conn.ackPending ≠ 0 := some
      refine Nat.le_trans (Nat.le_of_eq sent) (Nat.add_le_add_left ?_ _)
      split <;> omega
  · cases taken

theorem step_other {input : Host.Input} (free : t.host.conn.pm.AckFree)
    (taken : t.step (.other input) = some t') :
    t'.host.conn.pm.AckFree ∧ t'.acks = t.acks ∧ t.host.conn.Level t'.host.conn ∧
      t'.callbacks = t.callbacks ∧ t'.elicited = t.elicited := by
  simp only [step] at taken
  split at taken
  · cases taken
  · rename_i aside
    rw [Bool.not_eq_true] at aside
    split at taken
    · rename_i h moved
      split at taken
      · cases taken
      · rename_i opened
        cases taken
        obtain ⟨kept, silent⟩ := acks_of_noAck free (Host.noAck_step moved aside)
        refine ⟨kept, silent, ?_, rfl, rfl⟩
        have state := (Host.state_step moved).resolve_right opened
        by_cases quiet : Host.deals input = false
        · exact .of_intake state (Host.intake_step moved quiet)
        cases input with
        | acceptStream =>
          obtain ⟨out, accepted, rfl⟩ := Option.map_eq_some_iff.mp moved
          obtain ⟨id, rest, -, rfl⟩ := Connection.acceptStream_eq_some accepted
          exact ⟨rfl, rfl, rfl, rfl⟩
        | idleCheck now =>
          rw [Host.step, Connection.onIdleCheck] at moved
          obtain rfl := Option.some.inj moved
          dsimp only at opened ⊢
          split at opened
          · exact absurd (Connection.state_closeInternal _ now _ _ _) opened
          · rename_i awake
            rw [if_neg awake]
            exact .refl
        | close now code reason =>
          obtain rfl := Option.some.inj moved
          exact absurd (Connection.state_closeInternal _ now code reason true) opened
        | frame | note | ackTimer => cases aside
        | _ => exact absurd rfl quiet
    · cases taken

/-- Fewer packets are pending than make an ACK due, a callback is to run while there
are some, and each ACK sent answers a packet of its own. -/
structure Dutiful (t : AckDuty F) : Prop where
  free : t.host.conn.pm.AckFree
  few : t.host.conn.ackPending < ackElicitingThreshold
  watched : 0 < t.host.conn.ackPending → t.host.conn.ackTimer ≠ none
  live : ∀ timer, t.host.conn.ackTimer = some timer → timer ∈ t.callbacks
  owed : t.acks + t.host.conn.ackPending ≤ t.elicited

theorem Dutiful.packet (dutiful : t.Dutiful) (taken : t.step (.packet now pkt stopped) = some t') :
    t'.Dutiful := by
  obtain ⟨kept, answer⟩ := answer_packet dutiful.free taken
  have few := dutiful.few
  have owed := dutiful.owed
  cases answer with
  | aside other level callbacks silent elicited =>
    refine ⟨kept, level.pending ▸ few, ?_, ?_, ?_⟩
    · rw [level.pending, level.timer]
      exact dutiful.watched
    · rw [level.timer, callbacks]
      exact dutiful.live
    · rw [silent, level.pending, elicited]
      exact owed
  | now elicit pending timer sent elicited =>
    refine ⟨kept, ?_, ?_, ?_, ?_⟩
    · rw [pending]
      decide
    · rw [pending]
      nofun
    · rw [timer]
      nofun
    · rw [pending, sent, elicited]
      split <;> omega
  | later elicit early fewer pending timer set callbacks silent elicited =>
    refine ⟨kept, pending ▸ fewer, ?_, ?_, ?_⟩
    · rw [set]
      nofun
    · intro other found
      obtain rfl : timer = other := Option.some.inj (set.symm.trans found)
      rcases callbacks with ⟨before, same⟩ | new
      · rw [same]
        exact dutiful.live timer before
      · exact new
    · rw [silent, pending, elicited]
      omega

theorem Dutiful.step {i : Step} (dutiful : t.Dutiful) (taken : t.step i = some t') :
    t'.Dutiful := by
  cases i with
  | packet now pkt stopped => exact dutiful.packet taken
  | fire i now =>
    obtain ⟨pm, pending, timer, elicited, sent⟩ := step_fire taken
    have owed := dutiful.owed
    refine ⟨pm ▸ dutiful.free, ?_, ?_, ?_, ?_⟩
    · rw [pending]
      decide
    · rw [pending]
      nofun
    · rw [timer]
      nofun
    · rw [pending, elicited]
      omega
  | other input =>
    obtain ⟨kept, silent, level, callbacks, elicited⟩ := step_other dutiful.free taken
    refine ⟨kept, level.pending ▸ dutiful.few, ?_, ?_, ?_⟩
    · rw [level.pending, level.timer]
      exact dutiful.watched
    · rw [level.timer, callbacks]
      exact dutiful.live
    · rw [silent, level.pending, elicited]
      exact dutiful.owed

theorem validated_step {i : Step} (validated : t.host.conn.addrValidated = true)
    (taken : t.step i = some t') : t'.host.conn.addrValidated = true := by
  cases i with
  | packet now pkt stopped =>
    simp only [step] at taken
    split at taken
    · cases taken
    · cases taken
      exact Runs.invariant_of_forall (fun h : Host F => h.conn.addrValidated = true)
        (fun _ _ _ => Host.validated_step) validated (t.host.run_packet now pkt)
  | fire i now =>
    simp only [step] at taken
    split at taken
    · rename_i timer found
      cases taken
      have fired : t.host.step (.ackTimer now timer.srcStreamID timer.dstStreamID) = some _ := rfl
      exact Host.validated_step validated fired
    · cases taken
  | other input =>
    simp only [step] at taken
    repeat' split at taken
    all_goals cases taken
    exact Host.validated_step validated ‹_›

theorem ackHeld_of_validated (validated : t.host.conn.addrValidated = true) (now : Time)
    (pkt : Packet) : t.host.conn.ackHeld now pkt = false := by
  have still : ((t.host.conn.handled now pkt).recorded now pkt).addrValidated = true :=
    Connection.validated_handled now pkt validated
  rw [Connection.ackHeld, Connection.limited, still]
  rfl

/-- A host before anything has happened. -/
def fresh (localCID remoteCID : ConnectionID) (remoteAddr : Addr) (isInitiator : Bool)
    (addrValidated : Bool) (now : Time) : AckDuty F :=
  { host := Host.newHost localCID remoteCID remoteAddr isInitiator addrValidated now }

/-- In every run fewer packets are pending than make an ACK due, some callback is to
run while one is, and no more ACKs have gone out than packets that are to be
acknowledged came in. Such a packet that is out of order or opens, ends or probes is
acknowledged at once, unless the anti-amplification limit holds the ACK back, which it
never does once the peer's address is validated; other packets change nothing. -/
theorem acknowledges {localCID remoteCID : ConnectionID} {remoteAddr : Addr}
    {isInitiator addrValidated : Bool} {start : Time} {steps : List Step}
    (reached : Runs.run step
      (fresh (F := F) localCID remoteCID remoteAddr isInitiator addrValidated start) steps =
      some t) :
    t.host.conn.ackPending < ackElicitingThreshold ∧
      (0 < t.host.conn.ackPending → t.callbacks ≠ []) ∧ t.acks ≤ t.elicited ∧
      (addrValidated = true → ∀ now pkt, t.host.conn.ackHeld now pkt = false) ∧
      ∀ now pkt stopped t', t.step (.packet now pkt stopped) = some t' →
        (elicits pkt = true → t.host.conn.urgent pkt = true →
          (t'.acks = t.acks + 1 ↔ t.host.conn.ackHeld now pkt = false)) ∧
        (elicits pkt = false →
          t'.host.conn.ackPending = t.host.conn.ackPending ∧ t'.acks = t.acks) := by
  have start : (fresh (F := F) localCID remoteCID remoteAddr isInitiator addrValidated
      start).Dutiful := by
    refine ⟨fun _ _ member => ?_, Nat.zero_lt_two, nofun, nofun, Nat.le_refl 0⟩
    cases member
  have dutiful := Runs.invariant_of_forall Dutiful (fun _ _ _ dutiful => dutiful.step) start reached
  refine ⟨dutiful.few, fun pending none => ?_, by have := dutiful.owed; omega,
    fun validated => ackHeld_of_validated ?_, fun now pkt stopped t' taken => ?_⟩
  · obtain ⟨timer, set⟩ := Option.ne_none_iff_exists'.mp (dutiful.watched pending)
    have live := dutiful.live timer set
    rw [none] at live
    cases live
  · exact Runs.invariant_of_forall (fun t : AckDuty F => t.host.conn.addrValidated = true)
      (fun _ _ _ => validated_step) validated reached
  · obtain ⟨-, answer⟩ := answer_packet dutiful.free taken
    constructor
    · intro elicit urgent
      cases answer with
      | aside other =>
        rw [elicit] at other
        cases other
      | now _ _ _ sent =>
        rw [sent]
        cases t.host.conn.ackHeld now pkt <;> simp
      | later _ early =>
        rw [urgent] at early
        cases early
    · intro other
      cases answer with
      | aside _ level _ silent => exact ⟨level.pending, silent⟩
      | now elicit | later elicit =>
        rw [other] at elicit
        cases elicit

def eightBytes : ConnectionID := ⟨List.replicate 8 0, Nat.le_of_ble_eq_true rfl⟩

/-- A connection that a peer dialled, whose address is or is not known to be its own. -/
def accepted (addrValidated : Bool) : AckDuty ℚ :=
  fresh eightBytes eightBytes "peer" false addrValidated 0

/-- A numbered PING after four PATH_CHALLENGEs. -/
def challenged : Packet :=
  (accepted false).host.conn.packet 1 0 0
    (List.replicate 4 (.pathChallenge (Vector.replicate 8 0)) ++ [.ping])

/-- The responses use up what the packet allows an unvalidated peer to be sent. The
PING's ACK is held back, and nothing is pending for it. -/
theorem challenged_unanswered :
    elicits challenged = true ∧ (accepted false).host.conn.urgent challenged = true ∧
      ∃ t, Runs.run step (accepted false) [.packet 0 challenged true] = some t ∧ t.acks = 0 ∧
        t.host.conn.ackPending = 0 ∧ t.callbacks = [] := by
  refine ⟨by decide +kernel, by decide +kernel, ?_⟩
  have passes : (Runs.run step (accepted false) [.packet 0 challenged true]).any (fun t =>
      decide (t.acks = 0 ∧ t.host.conn.ackPending = 0 ∧ t.callbacks = [])) = true := by
    decide +kernel
  obtain ⟨t, reached, silent⟩ := Runs.reaches_of_any passes
  exact ⟨t, reached, of_decide_eq_true silent⟩

/-- The packets of a stream, one byte each. -/
def piece (seq : UInt32) : Packet :=
  (accepted true).host.conn.packet seq 0 1
    [.stream ⟨false, decide (seq = 0), seq.toUInt64, [seq.toUInt8]⟩]

/-- The second ACK stops the timer too late: the first timer's callback finds the
second timer's packet pending and acknowledges it, and the second's is still to run. -/
def tooLate : List Step :=
  [.packet 0 (piece 0) true, .packet 0 (piece 1) true, .packet 0 (piece 2) false,
    .packet 0 (piece 3) true, .fire 0 0]

theorem acknowledges_tooLate :
    ∃ t, Runs.run step (accepted true) tooLate = some t ∧ t.elicited = 4 ∧ t.acks = 3 ∧
      t.callbacks.length = 1 ∧ t.host.conn.ackPending < ackElicitingThreshold ∧
      t.acks ≤ t.elicited := by
  have passes : (Runs.run step (accepted true) tooLate).any (fun t =>
      decide (t.elicited = 4 ∧ t.acks = 3 ∧ t.callbacks.length = 1)) = true := by
    decide +kernel
  obtain ⟨t, reached, counts⟩ := Runs.reaches_of_any passes
  obtain ⟨elicited, sent, left⟩ := of_decide_eq_true counts
  obtain ⟨few, -, bound, -, -⟩ := acknowledges reached
  exact ⟨t, reached, elicited, sent, left, few, bound⟩

end AckDuty

end Udx

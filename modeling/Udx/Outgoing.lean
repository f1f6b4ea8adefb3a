import Udx.Intake

set_option autoImplicit false

/- Where the ACK frames on the wire come from. What a connection sends of its own
or puts on the wire again has none; only a packet's acknowledgment does. -/

namespace Udx

def Frame.isAck : Frame → Bool
  | .ack _ => true
  | _ => false

def AckFree (frames : List Frame) : Prop := ∀ f ∈ frames, f.isAck = false

/-- No packet that may go out again has an ACK. -/
def PacketManager.AckFree (pm : PacketManager) : Prop := ∀ p, Udx.AckFree (pm.cargo p).frames

theorem ackFree_singleton {f : Frame} (plain : f.isAck = false) : AckFree [f] :=
  List.forall_mem_singleton.mpr plain

namespace Connection

variable {F : Type} {a b c : Connection F}

/-- No ACK has gone out between `a` and `b`. -/
def NoAck (a b : Connection F) : Prop :=
  ∃ sent, b.wire = sent ++ a.wire ∧
    (a.pm.AckFree → b.pm.AckFree ∧ ∀ d ∈ sent, AckFree d.packet.frames)

namespace NoAck

theorem quiet (wire : b.wire = a.wire) (cargo : b.pm.cargo = a.pm.cargo) : NoAck a b := by
  refine ⟨[], wire, fun free => ⟨fun p => ?_, nofun⟩⟩
  rw [cargo]
  exact free p

theorem refl : NoAck c c := quiet rfl rfl

theorem trans (first : NoAck a b) (second : NoAck b c) : NoAck a c := by
  obtain ⟨early, wire, plain⟩ := first
  obtain ⟨late, wire', plain'⟩ := second
  refine ⟨late ++ early, by rw [wire', wire, List.append_assoc], fun free => ?_⟩
  obtain ⟨mid, before⟩ := plain free
  obtain ⟨last, after⟩ := plain' mid
  refine ⟨last, fun d member => ?_⟩
  rcases List.mem_append.mp member with new | old
  · exact after d new
  · exact before d old

theorem foldl {α : Type} {work : Connection F → α → Connection F} {xs : List α}
    (each : ∀ c, ∀ x ∈ xs, NoAck c (work c x)) : NoAck c (xs.foldl work c) := by
  induction xs generalizing c with
  | nil => exact .refl
  | cons x rest ih =>
    exact (each c x List.mem_cons_self).trans
      (ih fun c x member => each c x (List.mem_cons_of_mem _ member))

end NoAck

section Sending

variable (now : Time) (dstStreamID srcStreamID : UInt32)

theorem noAck_put {checked : Bool} {pkt : Packet}
    (plain : c.pm.AckFree → AckFree pkt.frames) : NoAck c (c.put checked pkt) :=
  ⟨[⟨pkt, c.remoteAddr, checked⟩], rfl, fun free =>
    ⟨free, List.forall_mem_singleton.mpr (plain free)⟩⟩

theorem noAck_new {pkt : SentPacket} (plain : AckFree pkt.frames) :
    NoAck c { c with pm := (c.pm.new pkt).1 } := by
  refine ⟨[], rfl, fun free => ⟨fun p => ?_, nofun⟩⟩
  rcases c.pm.cargo_new_cases pkt p with fresh | old
  · rw [fresh]
    exact plain
  · rw [old]
    exact free p

theorem noAck_track (seq : UInt32) {x : Cargo} (plain : AckFree x.frames) :
    NoAck c (c.track now seq x) :=
  have entered : NoAck c { c with pm := (c.pm.new { toCargo := x, sequence := seq }).1 } :=
    noAck_new plain
  entered.trans (.quiet rfl (PacketManager.cargo_sendPacket _ now _))

theorem noAck_registerData {frames : List Frame} (plain : AckFree frames) :
    NoAck c (c.registerData now dstStreamID srcStreamID frames).1 := by
  have numbered : NoAck c { c with pm := c.pm.nextSequence.1 } := .quiet rfl rfl
  exact numbered.trans ((noAck_track now _ plain).trans (.quiet rfl rfl))

theorem noAck_sendPacket {frames : List Frame} (plain : AckFree frames) :
    NoAck c (c.sendPacket now dstStreamID srcStreamID frames) := by
  have registered := noAck_registerData (c := c) now dstStreamID srcStreamID plain
  unfold sendPacket
  dsimp only
  split <;> split
  · exact registered
  · exact registered.trans (noAck_put fun _ => plain)
  · exact .refl
  · exact noAck_put fun _ => plain

theorem noAck_sendFrames {frames : List Frame} (plain : AckFree frames) :
    NoAck c (c.sendFrames now frames) :=
  noAck_sendPacket now 0 0 plain

theorem noAck_sendFor (s : Stream) {frames : List Frame} (plain : AckFree frames) :
    NoAck c (c.sendFor now s frames) :=
  .foldl fun _ f member => noAck_sendPacket now s.remoteID s.id (ackFree_singleton (plain f member))

theorem noAck_setStream_sendFor (t : Stream) {frames : List Frame} (plain : AckFree frames) :
    NoAck c ((c.setStream t).sendFor now t frames) :=
  have stored : NoAck c (c.setStream t) := .quiet rfl rfl
  stored.trans (noAck_sendFor now t plain)

variable [Float64 F]

theorem noAck_prepareDataPacket {frames : List Frame} (plain : AckFree frames) :
    NoAck c ((c.prepareDataPacket now dstStreamID srcStreamID frames).1.writeDatagrams
      (c.prepareDataPacket now dstStreamID srcStreamID frames).2.toList) := by
  have registered := noAck_registerData (c := c) now dstStreamID srcStreamID plain
  unfold prepareDataPacket
  dsimp only
  split
  · exact registered.trans (.quiet rfl rfl)
  · have paced (d : Connection F) (cc : CongestionController F) : NoAck d { d with cc := cc } :=
      .quiet rfl rfl
    have sent (d : Connection F) {pkt : Packet} (plain : AckFree pkt.frames) :
        NoAck d (d.put true pkt) := noAck_put fun _ => plain
    exact (registered.trans (paced _ _)).trans (sent _ plain)

theorem noAck_batch (acc : Connection F × List Packet) (frames : List StreamFrame) :
    let out := frames.foldl (batch now dstStreamID srcStreamID) acc
    NoAck (acc.1.writeDatagrams acc.2) (out.1.writeDatagrams out.2) := by
  induction frames generalizing acc with
  | nil => exact .refl
  | cons frame rest ih =>
    refine .trans ?_ (ih (batch now dstStreamID srcStreamID acc frame))
    have plain : AckFree [.stream frame] := ackFree_singleton rfl
    have prepared := noAck_prepareDataPacket (c := acc.1.writeDatagrams acc.2) now dstStreamID
      srcStreamID plain
    rw [prepareDataPacket_writeDatagrams] at prepared
    rw [batch, writeDatagrams_append]
    exact prepared

theorem noAck_sendStreamFrames (offset : UInt64) (data : List UInt8) (chunkSize : Nat)
    (isSyn : Bool) :
    NoAck c (c.sendStreamFrames now srcStreamID dstStreamID offset data chunkSize isSyn) := by
  rw [sendStreamFrames_eq]
  exact NoAck.trans (b := c.writeDatagrams []) (.quiet rfl rfl)
    (noAck_batch now dstStreamID srcStreamID (c, []) _)

end Sending

theorem noAck_retransmitPacket (p : Ptr) (seq : UInt32) : NoAck c (c.retransmitPacket p seq) :=
  noAck_put fun free => free p

theorem noAck_allocate (pkt : SentPacket) (frames : List StreamFrame) :
    NoAck c (allocate pkt c frames).1 := by
  induction frames generalizing c with
  | nil => exact .refl
  | cons frame rest ih => exact (noAck_new (ackFree_singleton rfl)).trans ih

theorem Cut.noAck {p : Ptr} {sf : StreamFrame} {limit : Nat} {out : Connection F × List Ptr}
    (cut : Cut c p sf limit out) : NoAck c out.1 := by
  have dropped : NoAck c { c with pm := c.pm.drop p } := .quiet rfl (c.pm.cargo_drop p)
  rw [← cut.allocated]
  exact dropped.trans (noAck_allocate _ _)

theorem noAck_fitToPath (p : Ptr) : NoAck c (c.fitToPath p).1 := by
  rcases c.fitToPath_cases p with whole | ⟨sf, limit, cut⟩
  · rw [whole]
    exact .refl
  · exact cut.noAck

section

variable [Float64 F] (now : Time)

theorem Round.noAck {p : Ptr} {rest : List Ptr} {c' : Connection F}
    (round : Round now c p rest c') : NoAck c c' := by
  cases round with
  | skipped | refused => exact .quiet rfl rfl
  | split sf limit out cut => exact cut.noAck.trans (.quiet rfl rfl)
  | sent pm seq resent =>
    have cargo := c.pm.cargo_resend now p
    rw [resent] at cargo
    refine .trans ?_ (noAck_retransmitPacket p seq)
    exact .quiet rfl cargo

theorem noAck_flushLoop (fuel : Nat) : NoAck c (flushLoop now fuel c) := by
  induction fuel generalizing c with
  | zero => exact .refl
  | succ fuel ih =>
    rcases queue : c.lostQueue with _ | ⟨p, rest⟩
    · rw [flushLoop, queue]
      exact .refl
    · by_cases closed : c.state = .closed
      · rw [flushLoop, queue]
        dsimp only
        rw [if_pos closed]
        exact .quiet rfl rfl
      · rcases flushLoop_cons now queue closed fuel with ⟨c', round, same⟩ | halt
        · rw [same]
          exact (round.noAck now).trans ih
        · generalize flushLoop now (fuel + 1) c = last at halt
          cases halt with
          | paced | full => exact .quiet rfl rfl

theorem noAck_flushLost : NoAck c (c.flushLost now) :=
  NoAck.trans (b := { c with lostTimer := none }) (.quiet rfl rfl) (noAck_flushLoop now _)

theorem noAck_resendProbe (p : Ptr) : NoAck c (resendProbe now c p) := by
  have cargo := c.pm.cargo_resend now p
  unfold resendProbe
  split <;> rename_i resent <;> rw [resent] at cargo
  · exact .quiet rfl cargo
  · rename_i pm seq
    have renumbered : NoAck c { c with pm := pm } := .quiet rfl cargo
    exact (renumbered.trans (noAck_retransmitPacket p seq)).trans (.quiet rfl rfl)

theorem noAck_onPtoTimeout : NoAck c (c.onPtoTimeout now) := by
  have fired (d : Connection F) (cc : CongestionController F) : NoAck d { d with cc := cc } :=
    .quiet rfl rfl
  have fallen (d : Connection F) : NoAck d (d.blackholed now) := by
    unfold blackholed
    split <;> exact .quiet rfl rfl
  have probed (d : Connection F) (ps : List Ptr) : NoAck d (ps.foldl (ptoProbe now) d) :=
    .foldl fun _ p _ => (noAck_fitToPath p).trans (.foldl fun _ q _ => noAck_resendProbe now q)
  have probes : NoAck c ({ c with cc := c.cc.ptoFired }.onPTO now) := by
    rw [onPTO_eq]
    exact (fired c _).trans ((fallen _).trans (probed _ _))
  exact probes.trans (fired _ _)

theorem noAck_reportLost (delay : Int) :
    NoAck c (c.reportLost now (c.pm.detectLostLocked now delay)) := by
  have taken : NoAck c { c with pm := (c.pm.detectLostLocked now delay).1 } :=
    .quiet rfl (cargo_detectLostLocked now c.pm delay)
  unfold reportLost
  dsimp only
  split
  · refine taken.trans ?_
    obtain ⟨mtu, -, ⟨-, same⟩ | ⟨oldest, -, -, same⟩⟩ :=
      onPacketsLost_cases now { c with pm := (c.pm.detectLostLocked now delay).1 }
        (c.pm.detectLostLocked now delay).2
    · rw [same]
      exact .quiet rfl rfl
    · rw [same]
      refine .trans ?_ (noAck_flushLost now)
      exact .quiet rfl rfl
  · exact taken

theorem noAck_onLossTimer : NoAck c (c.onLossTimer now) := by
  rw [onLossTimer_eq]
  have start : NoAck c c.timedOut := .quiet rfl rfl
  exact start.trans (noAck_reportLost now _)

omit [Float64 F] in
theorem noAck_sendProbe (size : { size : Nat // size ≤ maxDatagramSize }) :
    NoAck c (c.sendProbe now size) := by
  have numbered : NoAck c { c with pm := c.pm.nextSequence.1 } := .quiet rfl rfl
  have plain : AckFree (c.probeCargo size).frames := ackFree_singleton rfl
  rw [sendProbe_eq]
  refine (numbered.trans (noAck_track now (UInt32.ofNat c.pm.nextSeq) plain)).trans ?_
  exact noAck_put fun _ => ackFree_singleton rfl

omit [Float64 F] in
theorem noAck_probeMTU : NoAck c (c.probeMTU now) := by
  have searched : NoAck c { c with mtu := (c.mtu.nextProbe now).1 } := .quiet rfl rfl
  unfold probeMTU
  split
  · exact .refl
  · dsimp only
    split
    · exact searched
    · exact searched.trans (noAck_sendProbe now _)

theorem noAck_handleAckFrame (f : AckFrame) : NoAck c (c.handleAckFrame now f) := by
  have taken : NoAck c (c.acknowledged now f) := .quiet rfl (c.pm.cargo_handleAckFrame now f)
  have credited : NoAck c (c.credited now f) := taken.trans (.quiet rfl rfl)
  rw [handleAckFrame_eq]
  split
  · exact ((credited.trans (noAck_reportLost now _)).trans (noAck_flushLost now)).trans
      (noAck_probeMTU now)
  · exact taken

end

theorem ackFree_reset (s : Stream) (code : UInt32) : AckFree (s.reset code).2 := by
  unfold Stream.reset
  split
  · nofun
  · exact ackFree_singleton rfl

theorem ackFree_deliverData (s : Stream) (offset : Nat) (data : List UInt8) :
    AckFree (s.deliverData offset data).2 := by
  unfold Stream.deliverData
  dsimp only
  split
  · exact ackFree_reset _ _
  · split <;> nofun

theorem ackFree_close (s : Stream) : AckFree s.close.2 := by
  unfold Stream.close
  split
  · nofun
  · exact ackFree_singleton rfl

theorem ackFree_read (s : Stream) (size : Nat) (expired : Bool) :
    AckFree (s.read size expired).2.2 := by
  unfold Stream.read
  dsimp only
  repeat' split
  all_goals first | exact ackFree_singleton rfl | nofun

section

variable (now : Time)

theorem noAck_onStream (pkt : Packet) {op : Stream → Stream × List Frame}
    (plain : ∀ s, AckFree (op s).2) : NoAck c (c.onStream now pkt op) := by
  unfold onStream
  split
  · exact .refl
  · exact noAck_setStream_sendFor now _ (plain _)

theorem noAck_handleStreamFrame (pkt : Packet) (f : StreamFrame) :
    NoAck c (c.handleStreamFrame now pkt f) := by
  have found : NoAck c (c.streamFor pkt.destinationStreamID pkt.sourceStreamID f).1 := by
    unfold streamFor
    repeat' split
    all_goals exact .quiet rfl rfl
  have delivered (d : Connection F) (s : Stream) : NoAck d (d.deliver now s f) := by
    have plain : AckFree (if f.data.length > 0 then s.deliverData f.offset.toNat f.data
        else (s, [])).2 := by
      split
      · exact ackFree_deliverData _ _ _
      · nofun
    exact noAck_setStream_sendFor now _ plain
  rw [handleStreamFrame_eq]
  split
  · rename_i d same
    rwa [same] at found
  · rename_i d s same
    rw [same] at found
    exact found.trans (delivered d s)

theorem noAck_closeInternal (code : UInt32) (reason : List UInt8) (announce : Bool) :
    NoAck c (c.closeInternal now code reason announce) := by
  have told : NoAck c (c.announced now code reason announce) := by
    have closing : NoAck c { c with state := .closing, ackTimer := none, ackPending := 0 } :=
      .quiet rfl rfl
    unfold announced
    dsimp only
    split
    · exact closing.trans (noAck_sendFrames now (ackFree_singleton rfl))
    · exact closing
  have reset (d : Connection F) : NoAck d (d.resetAll code) :=
    NoAck.trans (b := { d with state := .closed }) (.quiet rfl rfl)
      (.foldl fun _ _ _ => .quiet rfl rfl)
  rw [closeInternal_eq]
  split
  · exact .refl
  · exact (told.trans (reset _)).trans (.quiet rfl rfl)

theorem noAck_sendControlTo {frames : List Frame} (addr : Addr) (plain : AckFree frames) :
    NoAck c (c.sendControlTo frames addr) :=
  ⟨[⟨c.packet 0 0 0 frames, addr, false⟩], c.wire_sendControlTo frames addr, fun free =>
    ⟨free, List.forall_mem_singleton.mpr plain⟩⟩

theorem noAck_writeBlocked {id : UInt32} {c' : Connection F}
    (blocked : c.writeBlocked now id = some c') : NoAck c c' := by
  obtain ⟨s, -, -, rfl⟩ := writeBlocked_eq_some now blocked
  exact noAck_sendFor now s (ackFree_singleton rfl)

theorem noAck_read {id : UInt32} {size : Nat} {expired : Bool}
    {out : Connection F × ReadResult} (read : c.read now id size expired = some out) :
    NoAck c out.1 := by
  obtain ⟨s, -, rfl⟩ := read_eq_some now read
  exact noAck_setStream_sendFor now _ (ackFree_read s size expired)

theorem noAck_callStream {id : UInt32} {op : Stream → Stream × List Frame} {c' : Connection F}
    (plain : ∀ s, AckFree (op s).2) (called : c.callStream now id op = some c') : NoAck c c' := by
  obtain ⟨s, -, rfl⟩ := callStream_eq_some now called
  exact noAck_setStream_sendFor now _ (plain s)

variable [Float64 F]

theorem noAck_handleFrame (pkt : Packet) (f : Frame) : NoAck c (c.handleFrame now pkt f) := by
  cases f with
  | stream f => exact noAck_handleStreamFrame now pkt f
  | ack f => exact noAck_handleAckFrame now f
  | windowUpdate | resetStream => exact noAck_onStream now pkt fun _ => nofun
  | stopSending _ code => exact noAck_onStream now pkt fun s => ackFree_reset s code
  | streamDataBlocked => exact noAck_onStream now pkt fun _ => ackFree_singleton rfl
  | connectionClose => exact noAck_closeInternal now _ _ _
  | pathChallenge | dataBlocked => exact noAck_sendFrames now (ackFree_singleton rfl)
  | pathResponse data =>
    simp only [handleFrame, completeMigration]
    cases c.pendingAddr with
    | none => exact .quiet rfl rfl
    | some addr =>
      dsimp only
      by_cases answers : data ≠ c.pendingChallenge
      · rw [if_pos answers]
        exact .quiet rfl rfl
      · rw [if_neg answers]
        exact .quiet rfl rfl
  | maxStreams count =>
    simp only [handleFrame]
    split <;> exact .quiet rfl rfl
  | maxData limit =>
    have raised (fc : FlowController) : NoAck c { c with fc := fc } := .quiet rfl rfl
    exact raised _
  | padding | ping | mtuProbe | newConnectionID | retireConnectionID => exact .refl

theorem noAck_writeBatch {id : UInt32} {entering : Bool} {data : List UInt8}
    {out : Connection F × Nat} (written : c.writeBatch now id entering data = some out) :
    NoAck c out.1 := by
  obtain ⟨s, ask, granted, t, batch, -, -, -, -, rfl⟩ := writeBatch_eq_some now written
  have stored : NoAck c (c.setStream t) := .quiet rfl rfl
  exact stored.trans (noAck_sendStreamFrames now _ _ _ _ _ _)

end

end Connection

end Udx

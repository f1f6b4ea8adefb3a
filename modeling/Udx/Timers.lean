import Mathlib.Algebra.Order.BigOperators.Group.List
import Udx.InFlight

set_option autoImplicit false

namespace Udx

open Flight (Move Moves)

/-- A packet that was sent has bytes, and not more than a datagram holds. -/
def Cargo.Sized (x : Cargo) : Prop := 0 < x.size ∧ x.size ≤ maxDatagramSize

/-- Data goes out in packets of at most a datagram. -/
def Flight.Rules.sized : Flight.Rules :=
  ⟨fun _ => True, fun _ x => x.probe = false → x.Sized, fun _ => True⟩

/-- Every data packet that is tracked or waits is sized. -/
structure Flight.Sized (f : Flight) : Prop where
  tracked : ∀ e ∈ f.tracked, e.2.probe = false → e.2.Sized
  waiting : ∀ x ∈ f.waiting, x.Sized

theorem Flight.Sized.number {f : Flight} (sized : f.Sized) {x : Cargo}
    (fits : x.probe = false → x.Sized) : ∀ e ∈ (f.number x).tracked, e.2.probe = false →
      e.2.Sized := by
  intro e member
  rcases Multiset.mem_cons.mp member with rfl | member
  · exact fits
  · exact sized.tracked e member

theorem Flight.Move.sized {f f' : Flight} (move : Move .sized f f') (sized : f.Sized) :
    f'.Sized := by
  cases move with
  | send x data allowed => exact ⟨sized.number allowed, sized.waiting⟩
  | probe x probe allowed => exact ⟨sized.number allowed, sized.waiting⟩
  | resend x rest data waits =>
    have here := sized.waiting x (waits ▸ Multiset.mem_cons_self x rest)
    exact ⟨sized.number fun _ => here, fun y member =>
      sized.waiting y (waits ▸ Multiset.mem_cons_of_mem member)⟩
  | ack n x rest present =>
    exact ⟨fun e member => sized.tracked e (present ▸ Multiset.mem_cons_of_mem member),
      sized.waiting⟩
  | lapse n x rest present =>
    exact ⟨fun e member => sized.tracked e (present ▸ Multiset.mem_cons_of_mem member),
      sized.waiting⟩
  | lose n x rest present data =>
    refine ⟨fun e member => sized.tracked e (present ▸ Multiset.mem_cons_of_mem member),
      fun y member => ?_⟩
    rcases Multiset.mem_cons.mp member with rfl | member
    · exact sized.tracked (n, y) (present ▸ Multiset.mem_cons_self _ rest) data
    · exact sized.waiting y member
  | split x pieces rest waits splits =>
    refine ⟨sized.tracked, fun y member => ?_⟩
    rcases Multiset.mem_add.mp member with piece | later
    · obtain ⟨sf, limit, size, -, -, -, -, smaller⟩ := splits
      obtain ⟨positive, bound⟩ := smaller y piece
      exact ⟨positive, bound.trans
        (sized.waiting x (waits ▸ Multiset.mem_cons_self x rest)).2⟩
    · exact sized.waiting y (waits ▸ Multiset.mem_cons_of_mem later)
  | book | land | emit | control => exact ⟨sized.tracked, sized.waiting⟩

namespace Connection

variable {F : Type} [Float64 F]

/-- Bytes in flight have the probe timer behind them, and queued packets a
timer or bytes in flight. -/
structure Watched (c : Connection F) : Prop where
  ready : c.cc.Ready
  queued : c.lostQueue ≠ [] → c.lostTimer.isSome = true ∨ 0 < c.cc.inflight

variable {c : Connection F}

omit [Float64 F] in
theorem Watched.congr {c' : Connection F} (watched : c.Watched) (ready : c'.cc.Ready)
    (queue : c'.lostQueue = c.lostQueue) (timer : c'.lostTimer = c.lostTimer)
    (inflight : c.cc.inflight ≤ c'.cc.inflight) : c'.Watched := by
  refine ⟨ready, fun waits => ?_⟩
  rw [queue] at waits
  rw [timer]
  rcases watched.queued waits with timed | booked
  · exact .inl timed
  · exact .inr (Int.lt_of_lt_of_le booked inflight)

omit [Float64 F] in
/-- A window closed to a sized packet has bytes in flight. -/
theorem watched_of_flushed {g : Ghost} (ready : c.cc.Ready) (flushed : c.Flushed)
    (sized : (c.flight g).Sized) : c.Watched := by
  refine ⟨ready, fun waits => ?_⟩
  rcases flushed with empty | timed | ⟨p, member, closed⟩
  · exact absurd empty waits
  · exact .inl timed
  · have here : c.pm.cargo p ∈ (c.flight g).waiting :=
      Multiset.mem_coe.mpr (List.mem_map_of_mem (List.mem_append_left _ member))
    have size : (c.pm.heap p).size ≤ 1472 := (sized.waiting _ here).2
    have window := ready.window
    rw [show minCwnd = 2944 from rfl] at window
    have closed : ¬ c.cc.inflight + (c.pm.heap p).size ≤ c.cc.cwnd := of_decide_eq_false closed
    exact .inr (by omega)

section Sending

variable (now : Time) (dstStreamID srcStreamID : UInt32)

omit [Float64 F] in
theorem Watched.registerData (watched : c.Watched) (frames : List Frame) :
    (c.registerData now dstStreamID srcStreamID frames).1.Watched :=
  watched.congr (watched.ready.onPacketSent now _) rfl rfl
    (Int.le_add_of_nonneg_right (Int.natCast_nonneg _))

omit [Float64 F] in
theorem Watched.put (watched : c.Watched) (checked : Bool) (pkt : Packet) :
    (c.put checked pkt).Watched :=
  watched.congr watched.ready rfl rfl (Int.le_refl _)

omit [Float64 F] in
theorem Watched.sendPacket (watched : c.Watched) (frames : List Frame) :
    (c.sendPacket now dstStreamID srcStreamID frames).Watched := by
  have registered := watched.registerData now dstStreamID srcStreamID frames
  unfold Connection.sendPacket
  dsimp only
  split <;> split
  · exact registered
  · exact registered.put true _
  · exact watched
  · exact watched.put true _

theorem Watched.prepareDataPacket (watched : c.Watched) (frames : List Frame) :
    (c.prepareDataPacket now dstStreamID srcStreamID frames).1.Watched := by
  have registered := watched.registerData now dstStreamID srcStreamID frames
  unfold Connection.prepareDataPacket
  dsimp only
  split <;> exact registered.congr (registered.ready.congr rfl rfl rfl) rfl rfl (Int.le_refl _)

theorem Watched.batch (acc : Connection F × List Packet) (watched : acc.1.Watched)
    (frames : List StreamFrame) :
    (frames.foldl (Connection.batch now dstStreamID srcStreamID) acc).1.Watched := by
  induction frames generalizing acc with
  | nil => exact watched
  | cons frame rest ih =>
    exact ih _ (watched.prepareDataPacket now dstStreamID srcStreamID _)

end Sending

section Flush

variable (now : Time)

theorem ready_flushLoop (opened : c.state ≠ .closed) (ready : c.cc.Ready) (fuel : Nat) :
    (flushLoop now fuel c).cc.Ready := by
  induction fuel generalizing c with
  | zero => exact ready
  | succ fuel ih =>
    rcases queue : c.lostQueue with _ | ⟨p, rest⟩
    · rw [flushLoop, queue]
      exact ready
    · rcases flushLoop_cons now queue opened fuel with ⟨c', round, same⟩ | halt
      · have opened' : c'.state ≠ .closed := by
          rwa [show c'.state = c.state from congrArg Endpoint.state round.sends.endpoint]
        rw [same]
        refine ih opened' ?_
        cases round with
        | skipped | refused => exact ready
        | split sf limit out cut =>
          obtain ⟨⟨pm, only⟩, -⟩ := allocate_spec (c.pm.heap p) [] cut.allocated
          rw [show ({ out.1 with lostQueue := out.2 ++ rest } : Connection F).cc = c.cc by
            rw [only]]
          exact ready
        | sent pm seq => exact (ready.onPacketSent now _).congr rfl rfl rfl
      · generalize flushLoop now (fuel + 1) c = last at halt
        cases halt <;> exact ready

theorem ready_flushLost (opened : c.state ≠ .closed) (ready : c.cc.Ready) :
    (c.flushLost now).cc.Ready :=
  ready_flushLoop (c := { c with lostTimer := none }) now opened ready _

theorem ready_lostSignal (ready : c.cc.Ready) (oldest : Ptr) (data : List Ptr) :
    (c.lostSignal now oldest data).Ready := by
  unfold lostSignal
  dsimp only
  split
  · exact (ready.onPacketLost now _ _).onPersistentCongestion
  · exact ready.onPacketLost now _ _

theorem ready_reportLost (opened : c.state ≠ .closed) (ready : c.cc.Ready)
    (detected : PacketManager × List Ptr) : (c.reportLost now detected).cc.Ready := by
  unfold reportLost
  dsimp only
  split
  · obtain ⟨mtu, -, ⟨-, report⟩ | ⟨oldest, -, -, report⟩⟩ :=
      ({ c with pm := detected.1 } : Connection F).onPacketsLost_cases now detected.2
    · rw [report]
      exact ready
    · rw [report]
      exact ready_flushLost now opened
        (ready_lostSignal (c := { c with pm := detected.1 }) now ready _ _)
  · exact ready

end Flush

section Pto

variable (now : Time)

/-- What a probe timeout leaves alone. -/
def standing (c : Connection F) : List Ptr × Option Time × Int × Int :=
  (c.lostQueue, c.lostTimer, c.cc.inflight, c.cc.cwnd)

theorem standing_resendProbe (c : Connection F) (p : Ptr) :
    (resendProbe now c p).standing = c.standing := by
  unfold resendProbe
  split <;> rfl

omit [Float64 F] in
theorem standing_fitToPath (c : Connection F) (p : Ptr) :
    (c.fitToPath p).1.standing = c.standing := by
  rcases c.fitToPath_cases p with whole | ⟨sf, limit, cut⟩
  · rw [whole]
  · obtain ⟨⟨pm, only⟩, -⟩ := allocate_spec (c.pm.heap p) [] cut.allocated
    rw [only]
    rfl

omit [Float64 F] in
theorem standing_foldl {step : Connection F → Ptr → Connection F}
    (each : ∀ c p, (step c p).standing = c.standing) (ps : List Ptr) (c : Connection F) :
    (ps.foldl step c).standing = c.standing := by
  induction ps generalizing c with
  | nil => rfl
  | cons p rest ih => exact (ih _).trans (each c p)

theorem standing_onPTO (c : Connection F) : (c.onPTO now).standing = c.standing := by
  rw [onPTO_eq]
  refine (standing_foldl (fun c p => ?_) _ _).trans ?_
  · exact (standing_foldl (standing_resendProbe now) _ _).trans (standing_fitToPath c p)
  · unfold blackholed
    split <;> rfl

theorem Watched.onPtoTimeout (watched : c.Watched) : (c.onPtoTimeout now).Watched := by
  have same := standing_onPTO now { c with cc := c.cc.ptoFired }
  simp only [standing, Prod.mk.injEq] at same
  obtain ⟨queue, timer, inflight, cwnd⟩ := same
  have ready : (c.onPtoTimeout now).cc.Ready := .ptoRearm (cwnd ▸ watched.ready.window) now
  refine watched.congr ready queue timer ?_
  exact ((CongestionController.inflight_ptoRearm _ now).trans inflight).ge

end Pto

omit [Float64 F] in
theorem probeMTU_aside (c : Connection F) (now : Time) :
    (c.probeMTU now).cc = c.cc ∧ (c.probeMTU now).lostQueue = c.lostQueue ∧
      (c.probeMTU now).lostTimer = c.lostTimer := by
  unfold probeMTU
  split
  · exact ⟨rfl, rfl, rfl⟩
  · dsimp only
    split <;> exact ⟨rfl, rfl, rfl⟩

omit [Float64 F] in
theorem Watched.probeMTU (watched : c.Watched) (now : Time) : (c.probeMTU now).Watched := by
  obtain ⟨cc, queue, timer⟩ := c.probeMTU_aside now
  exact watched.congr (cc ▸ watched.ready) queue timer (by rw [cc])

/-- The packets sent are at most a datagram. -/
def Small (c : Connection F) : Event → Prop
  | .sendPacket _ dst src frames => (c.dataCargo dst src frames).size ≤ maxDatagramSize
  | .sendStreamFrames _ id remoteID offset data chunkSize isSyn =>
    ∀ frame ∈ streamFrames false offset isSyn (Chunks.chunks chunkSize data),
      c.frameSize remoteID id frame ≤ maxDatagramSize
  | _ => True

/-- No probe timeout has to cut a packet, and CUBIC's arithmetic does not
overflow. -/
def EventFits (c : Connection F) : Event → Prop
  | .pto now => c.ptoFits now = true
  | .ack now _ => c.cc.WindowFits now
  | _ => True

omit [Float64 F] in
theorem sendable_sized {dstStreamID srcStreamID : UInt32} {size : StreamFrame → Nat}
    {frames : List StreamFrame} (positive : ∀ frame ∈ frames, 0 < size frame)
    (small : ∀ frame ∈ frames, size frame ≤ maxDatagramSize) (extent : UInt32 → Nat) :
    Sendable .sized dstStreamID srcStreamID size extent frames := by
  induction frames generalizing extent with
  | nil => trivial
  | cons frame rest ih =>
    refine ⟨fun _ => ⟨positive frame List.mem_cons_self, small frame List.mem_cons_self⟩, ?_⟩
    exact ih (fun f member => positive f (List.mem_cons_of_mem _ member))
      (fun f member => small f (List.mem_cons_of_mem _ member)) _

omit [Float64 F] in
theorem marshalPacket_pos (pkt : Packet) : 0 < (marshalPacket pkt).length := by
  rw [length_marshalPacket, Packet.headerLen]
  omega

theorem simulated_sized (opened : c.state ≠ .closed) {event : Event} (small : c.Small event)
    (eventFits : c.EventFits event) :
    ∃ extent, Simulated .sized c ground (c.handle event) { ground with extent := extent } := by
  cases event with
  | sendPacket now dst src frames =>
    by_cases bears : frames.any Frame.bearsData = true
    · exact ⟨_, simulated_sendPacket_data now dst src bears
        fun _ => ⟨marshalPacket_pos _, small⟩⟩
    · exact ⟨_, simulated_sendPacket_control now dst src (by simpa using bears) trivial⟩
  | sendStreamFrames now id remoteID offset data chunkSize isSyn =>
    exact ⟨_, simulated_sendStreamFrames now remoteID id offset data chunkSize isSyn
      (sendable_sized (fun _ _ => marshalPacket_pos _) small _)⟩
  | probeMTU now => exact ⟨_, simulated_probeMTU now fun _ _ _ probe _ data => absurd (probe.symm.trans data) nofun⟩
  | ack now frame =>
    exact ⟨_, simulated_handleAckFrame now frame opened (Int.le_refl 0) (fun _ _ => trivial)
      fun _ _ _ probe _ data => absurd (probe.symm.trans data) nofun⟩
  | lossTimer now => exact ⟨_, simulated_onLossTimer now opened (Int.le_refl 0)⟩
  | pto now =>
    refine ⟨ground.extent, fun room custody => ?_⟩
    obtain ⟨debt, moves, settled⟩ := onPtoTimeout_spec now room custody
    rw [settled eventFits] at moves
    exact moves
  | flushLost now => exact ⟨_, simulated_flushLost now opened⟩
  | blackhole now => exact ⟨_, .aside rfl rfl rfl rfl⟩

section Ack

variable (now : Time) (f : AckFrame)

theorem ready_credited (watched : c.Watched) (fits : c.cc.WindowFits now)
    (room : c.pm.nextSeq ≤ 2 ^ 32) (custody : c.Custody ground)
    (balanced : (c.flight ground).Balanced) : (c.credited now f).cc.Ready := by
  have same : (c.acknowledged now f).pm.nextSeq = c.pm.nextSeq :=
    (c.pm.nextSeq_handleAckFrame now f).1
  obtain ⟨-, moves⟩ := acknowledged_spec (r := .any) now f (fun _ _ => trivial)
    (same.trans_le room) custody
  have owed := moves.keep (fun _ _ move => move.balanced) balanced
  rw [Flight.Balanced, booked_flight] at owed
  have books : c.cc.inflight =
      (c.acknowledged now f).trackedBytes + (0 + ((c.ackTally now f).bytes : Int)) := owed
  exact watched.ready.onPacketAcked fits (by omega) _ _ _ _

theorem watched_reflushed (opened : c.state ≠ .closed) (watched : c.Watched)
    (fits : c.cc.WindowFits now) (room : (c.reflushed now f).pm.nextSeq ≤ 2 ^ 32)
    (custody : c.Custody ground) (balanced : (c.flight ground).Balanced)
    (sized : (c.flight ground).Sized) : (c.reflushed now f).Watched := by
  have credited := ready_credited now f watched fits
    (Nat.le_trans (keeps_reflushed now f).next room) custody balanced
  have detected : ((c.credited now f).detectLostPackets now).cc.Ready :=
    ready_reportLost (c := c.credited now f) now opened credited _
  have opened' := opened_detected now f opened
  obtain ⟨custody', -⟩ := simulated_detected (r := .sized) now f opened (Int.le_refl 0)
    (fun _ _ => trivial) (Nat.le_trans (sends_flushLost now).next room) custody
  obtain ⟨-, moves⟩ := simulated_reflushed (r := .sized) now f opened (Int.le_refl 0)
    (fun _ _ => trivial) room custody
  exact watched_of_flushed (ready_flushLost now opened' detected)
    (flushed_flushLost now opened' room custody')
    (moves.keep (fun _ _ move => move.sized) sized)

end Ack

theorem watched_onLossTimer (now : Time) (opened : c.state ≠ .closed) (watched : c.Watched)
    (room : (c.onLossTimer now).pm.nextSeq ≤ 2 ^ 32) (custody : c.Custody ground)
    (sized : (c.flight ground).Sized) : (c.onLossTimer now).Watched := by
  obtain ⟨-, moves⟩ := simulated_onLossTimer (r := .sized) now opened (Int.le_refl 0) room custody
  have ready : (c.onLossTimer now).cc.Ready :=
    ready_reportLost (c := c.timedOut) now opened watched.ready _
  obtain ⟨custody', -⟩ := simulated_timedOut (r := .sized)
    (Nat.le_trans (keeps_onLossTimer now).next room) custody
  have flushed := flushed_reportLost (c := c.timedOut) (g := ground) now opened (Int.le_refl 0)
    c.lossDelay room custody'
  rw [← onLossTimer_eq] at flushed
  rcases flushed with ⟨pm, mtu, same⟩ | flushed
  · rw [same]
    exact watched.congr watched.ready rfl rfl (Int.le_refl _)
  · exact watched_of_flushed ready flushed (moves.keep (fun _ _ move => move.sized) sized)

theorem watched_handle (opened : c.state ≠ .closed) (watched : c.Watched) {event : Event}
    (eventFits : c.EventFits event) (room : (c.handle event).pm.nextSeq ≤ 2 ^ 32)
    (custody : c.Custody ground) (balanced : (c.flight ground).Balanced)
    (sized : (c.flight ground).Sized) : (c.handle event).Watched := by
  cases event with
  | sendPacket now dst src frames => exact watched.sendPacket now dst src frames
  | sendStreamFrames now id remoteID offset data chunkSize isSyn =>
    rw [handle, sendStreamFrames_eq]
    exact Watched.congr (Watched.batch now remoteID id (c, []) watched _)
      (Watched.batch now remoteID id (c, []) watched _).ready rfl rfl (Int.le_refl _)
  | probeMTU now => exact watched.probeMTU now
  | ack now frame =>
    rw [handle, handleAckFrame_eq] at room ⊢
    split at room
    · rename_i some
      rw [if_pos some]
      have within := Nat.le_trans (sends_probeMTU now).next room
      exact (watched_reflushed now frame opened watched eventFits within custody balanced
        sized).probeMTU now
    · rename_i none
      rw [if_neg none]
      exact watched.congr watched.ready rfl rfl (Int.le_refl _)
  | lossTimer now => exact watched_onLossTimer now opened watched room custody sized
  | pto now => exact watched.onPtoTimeout now
  | flushLost now =>
    obtain ⟨-, moves⟩ := simulated_flushLost (r := .sized) now opened room custody
    exact watched_of_flushed (ready_flushLost now opened watched.ready)
      (flushed_flushLost now opened room custody) (moves.keep (fun _ _ move => move.sized) sized)
  | blackhole now => exact watched.congr watched.ready rfl rfl (Int.le_refl _)

/-- An open connection between two steps, as long as numbers do not repeat. -/
structure OpenAndWatched (c : Connection F) : Prop where
  opened : c.state ≠ .closed
  watched : c.pm.nextSeq ≤ 2 ^ 32 →
    c.Custody ground ∧ (c.flight ground).Balanced ∧ (c.flight ground).Sized ∧ c.Watched

theorem openAndWatched_step {c' : Connection F} {event : Event} (watches : c.OpenAndWatched)
    (permitted : c.Small event ∧ c.EventFits event) (taken : c.step event = some c') :
    c'.OpenAndWatched := by
  obtain rfl := Option.some.inj taken
  obtain ⟨_, keeps⟩ := c.keeps_handle event
  refine ⟨?_, fun room => ?_⟩
  · rw [show (c.handle event).state = c.state from congrArg Endpoint.state keeps.endpoint]
    exact watches.opened
  · obtain ⟨custody, balanced, sized, watched⟩ :=
      watches.watched (Nat.le_trans keeps.next room)
    obtain ⟨extent, simulated⟩ := simulated_sized watches.opened permitted.1 permitted.2
    obtain ⟨kept, moves⟩ := simulated room custody
    have fits := moves.keep (fun _ _ move => move.sized) sized
    exact ⟨kept, moves.keep (fun _ _ move => move.balanced) balanced, ⟨fits.tracked, fits.waiting⟩,
      watched_handle watches.opened watched permitted.2 room custody balanced sized⟩

theorem openAndWatched_new (localCID remoteCID : ConnectionID) (addr : Addr)
    (isInitiator validated : Bool) (now : Time) :
    (newConnection localCID remoteCID addr isInitiator validated now : Connection F).OpenAndWatched :=
  ⟨by simp [newConnection], fun _ => ⟨PacketManager.custody_new, rfl,
    ⟨fun _ member => absurd member (Multiset.notMem_zero _),
      fun _ member => absurd member (Multiset.notMem_zero _)⟩,
    .new .., fun waits => absurd rfl waits⟩⟩

/-- Some data is tracked or waits to go out again. -/
def Unacknowledged (c : Connection F) : Prop :=
  (∃ p ∈ c.pm.outstanding, (c.pm.heap p).probe = false) ∨ c.lostQueue ≠ []

/-- The probe timer, the loss timer or the re-send timer is armed. -/
def Armed (c : Connection F) : Prop :=
  c.cc.ptoTimer.isSome = true ∨ c.pm.lossTimer.isSome = true ∨ c.lostTimer.isSome = true

instance (c : Connection F) : Decidable c.Unacknowledged := by
  unfold Unacknowledged
  infer_instance

instance (c : Connection F) : Decidable c.Armed := by
  unfold Armed
  infer_instance

instance (c : Connection F) : (event : Event) → Decidable (c.Small event)
  | .sendPacket _ dst src frames =>
    inferInstanceAs (Decidable ((c.dataCargo dst src frames).size ≤ maxDatagramSize))
  | .sendStreamFrames _ id remoteID offset data chunkSize isSyn =>
    inferInstanceAs (Decidable
      (∀ frame ∈ streamFrames false offset isSyn (Chunks.chunks chunkSize data),
        c.frameSize remoteID id frame ≤ maxDatagramSize))
  | .probeMTU _ | .ack .. | .lossTimer _ | .pto _ | .flushLost _ | .blackhole _ =>
    inferInstanceAs (Decidable True)

instance (c : Connection F) : (event : Event) → Decidable (c.EventFits event)
  | .pto now => inferInstanceAs (Decidable (c.ptoFits now = true))
  | .ack now _ => inferInstanceAs (Decidable (c.cc.WindowFits now))
  | .sendPacket .. | .sendStreamFrames .. | .probeMTU _ | .lossTimer _ | .flushLost _
  | .blackhole _ => inferInstanceAs (Decidable True)

omit [Float64 F] in
theorem trackedBytes_pos (sized : (c.flight ground).Sized) {p : Ptr}
    (member : p ∈ c.pm.outstanding) (data : (c.pm.heap p).probe = false) :
    0 < c.trackedBytes := by
  obtain ⟨e, inside, rfl⟩ := List.mem_map.mp member
  have here : (e.1, c.pm.cargo e.2) ∈ (c.flight ground).tracked :=
    Multiset.mem_coe.mpr (List.mem_map_of_mem inside)
  have positive := (sized.tracked _ here data).1
  refine Nat.lt_of_lt_of_le positive (List.single_le_sum (fun _ _ => Nat.zero_le _) _ ?_)
  exact List.mem_map_of_mem (List.mem_filter.mpr ⟨member, by simp [data]⟩)

/-- In every run of packets of at most a datagram in which no probe timeout
cuts a packet, CUBIC's arithmetic does not overflow and numbers do not repeat,
a timer stands behind unacknowledged data. -/
theorem armed_of_unacknowledged {localCID remoteCID : ConnectionID} {addr : Addr}
    {isInitiator validated : Bool} {start : Time} {events : List Event}
    (permitted : Runs.Along step (fun c event => c.Small event ∧ c.EventFits event)
      (newConnection localCID remoteCID addr isInitiator validated start : Connection F) events)
    (reached : Runs.run step (newConnection localCID remoteCID addr isInitiator validated start)
      events = some c)
    (few : c.pm.nextSeq ≤ 2 ^ 32) : c.Unacknowledged → c.Armed := by
  have watches := Runs.invariant OpenAndWatched (fun _ _ _ => openAndWatched_step) (openAndWatched_new ..)
    permitted reached
  obtain ⟨-, balanced, sized, watched⟩ := watches.watched few
  have books : c.cc.inflight = c.trackedBytes := by
    rw [Flight.Balanced, booked_flight] at balanced
    simpa [flight, ground] using balanced
  rintro (⟨p, member, data⟩ | waits)
  · have positive := trackedBytes_pos sized member data
    exact .inl (watched.ready.armed (by omega))
  · rcases watched.queued waits with timed | booked
    · exact .inr (.inr timed)
    · exact .inl (watched.ready.armed booked)

/-- A bare FIN follows, and then the ACK of the two pieces that the timed-out
packet was cut into. -/
def piecesAcked : List Event :=
  blackHole ++ [.sendPacket 0 0 1 [.stream ⟨true, false, 1443, []⟩], received [0, 1, 5, 6]]

/-- The pieces take more bytes out of flight than were booked for them, and
with the FIN still tracked the probe timer is left off. -/
theorem piecesAcked_unarmed :
    Runs.Along step Small fresh piecesAcked ∧
      ∃ c, Runs.run step fresh piecesAcked = some c ∧ c.pm.nextSeq = 8 ∧
        c.Unacknowledged ∧ ¬ c.Armed := by
  have silent : (Runs.run step fresh piecesAcked).any (fun c =>
      decide (c.pm.nextSeq = 8 ∧ c.Unacknowledged ∧ ¬ c.Armed)) = true := by decide +kernel
  obtain ⟨c, reached, test⟩ := Runs.reaches_of_any silent
  exact ⟨by decide +kernel, c, reached, of_decide_eq_true test⟩

/-- Two timeouts before the path shrinks leave the probe timer armed. -/
theorem armed_of_unacknowledged_twice :
    ∃ c, Runs.run step fresh blackHole.dropLast = some c ∧ c.Unacknowledged ∧ c.Armed := by
  have waits : (Runs.run step fresh blackHole.dropLast).any (fun c =>
      decide (c.pm.nextSeq ≤ 2 ^ 32 ∧ c.Unacknowledged)) = true := by decide +kernel
  have permitted : Runs.Along step (fun c event => c.Small event ∧ c.EventFits event) fresh
      blackHole.dropLast := by decide +kernel
  obtain ⟨c, reached, test⟩ := Runs.reaches_of_any waits
  obtain ⟨few, unacknowledged⟩ := of_decide_eq_true test
  exact ⟨c, reached, unacknowledged,
    armed_of_unacknowledged permitted reached few unacknowledged⟩

end Connection

end Udx

import Udx.AckAgreement
import Udx.Host
import Udx.MtuSearch

set_option autoImplicit false

/- What a connection says. A packet it tracks may go out again under another
number, and in pieces once the path has shrunk; what it says anew is what a
stream or the connection hands over. -/

namespace Udx

/-- How a connection makes a packet of a number, the stream it is for and the one
it is from, and its frames. -/
abbrev Packet.Stamp := UInt32 → UInt32 → UInt32 → List Frame → Packet

/-- A frame a connection sends of its own accord, whatever its peer told it. -/
def Frame.Control : Frame → Prop
  | .ack f => f.ackRanges.length ≤ 5
  | .connectionClose f => f.reasonPhrase = []
  | .ping | .windowUpdate _ | .maxData _ | .resetStream _ | .pathChallenge _ | .pathResponse _
  | .streamDataBlocked _ _ => True
  | _ => False

/-- Any answer may be given, what may be said may be said again in pieces, and the
path may be probed. -/
structure Packet.Stamp.Tolerates (stamp : Packet.Stamp) (P : Packet → Prop) : Prop where
  blank : ∀ seq, P (stamp seq 0 0 [])
  control : ∀ {f : Frame}, f.Control → ∀ seq dst src, P (stamp seq dst src [f])
  pieces : ∀ {seq dst src : UInt32} {sf : StreamFrame} {limit : Nat},
    P (stamp seq dst src [.stream sf]) → 0 < limit → limit < sf.data.length →
      ∀ piece ∈ streamFrames sf.isFin sf.offset sf.isSyn (Chunks.chunks limit sf.data),
        ∀ seq', P (stamp seq' dst src [.stream piece])
  probes : ∀ {padding : Int}, 1 ≤ padding →
    (∀ seq, (marshalPacket (stamp seq 0 0 [.mtuProbe padding])).length ≤ maxDatagramSize) →
      ∀ seq, P (stamp seq 0 0 [.mtuProbe padding])

namespace Stream

variable (s : Stream)

theorem control_reset (errorCode : UInt32) : ∀ f ∈ (s.reset errorCode).2, f.Control := by
  unfold reset
  split
  · exact List.forall_mem_nil _
  · exact List.forall_mem_singleton.mpr trivial

theorem control_deliverData (offset : Nat) (data : List UInt8) :
    ∀ f ∈ (s.deliverData offset data).2, f.Control := by
  unfold deliverData
  dsimp only
  split
  · exact control_reset _ _
  · split <;> exact List.forall_mem_nil _

theorem control_read (size : Nat) (expired : Bool) :
    ∀ f ∈ (s.read size expired).2.2, f.Control := by
  unfold read
  dsimp only
  repeat' split
  all_goals first | exact List.forall_mem_nil _ | exact List.forall_mem_singleton.mpr trivial

end Stream

namespace Connection

variable {F : Type} {stamp : Packet.Stamp} {P : Packet → Prop} {a b c : Connection F}

/-- What the connection has said, and keeps to say again, is `P`. -/
structure Speaks (stamp : Packet.Stamp) (P : Packet → Prop) (c : Connection F) : Prop where
  stamped : c.packet = stamp
  held : ∀ p seq, P (stamp seq (c.pm.cargo p).destinationStreamID (c.pm.cargo p).sourceStreamID
    (c.pm.cargo p).frames)
  wire : ∀ d ∈ c.wire, P d.packet
  search : c.mtu.Bracketed

theorem speaks_new (tolerates : stamp.Tolerates P) (stamped : c.packet = stamp) (pm : c.pm = {})
    (wire : c.wire = []) (mtu : c.mtu = newMTUDiscovery) : c.Speaks stamp P := by
  refine ⟨stamped, fun p seq => ?_, ?_, ?_⟩
  · rw [pm]
    exact tolerates.blank seq
  · rw [wire]
    exact List.forall_mem_nil _
  · rw [mtu]
    exact MTUDiscovery.bracketed_new

namespace Speaks

variable (speaks : c.Speaks stamp P)
include speaks

theorem congr (ids : (b.localCID, b.remoteCID) = (c.localCID, c.remoteCID))
    (cargo : b.pm.cargo = c.pm.cargo) (wire : b.wire = c.wire) (search : b.mtu.Bracketed) :
    b.Speaks stamp P := by
  obtain ⟨here, there⟩ := Prod.mk.inj ids
  refine ⟨?_, ?_, ?_, search⟩
  · rw [← speaks.stamped]
    unfold packet
    rw [here, there]
  · rw [cargo]
    exact speaks.held
  · rw [wire]
    exact speaks.wire

theorem mono {Q : Packet → Prop} (weaker : ∀ pkt, P pkt → Q pkt) : c.Speaks stamp Q :=
  ⟨speaks.stamped, fun p seq => weaker _ (speaks.held p seq),
    fun d member => weaker _ (speaks.wire d member), speaks.search⟩

theorem manage {pm : PacketManager} (cargo : pm.cargo = c.pm.cargo) :
    Connection.Speaks stamp P { c with pm := pm } :=
  speaks.congr rfl cargo rfl speaks.search

theorem emit {d : Datagram} (said : P d.packet) (bytes : Nat) :
    Connection.Speaks stamp P { c with bytesSent := bytes, wire := d :: c.wire } :=
  ⟨speaks.stamped, speaks.held, List.forall_mem_cons.mpr ⟨said, speaks.wire⟩, speaks.search⟩

theorem put {pkt : Packet} (said : P pkt) (checked : Bool) : (c.put checked pkt).Speaks stamp P :=
  speaks.emit said _

theorem new {pkt : SentPacket}
    (said : ∀ seq, P (stamp seq pkt.destinationStreamID pkt.sourceStreamID pkt.frames)) :
    Connection.Speaks stamp P { c with pm := (c.pm.new pkt).1 } := by
  refine ⟨speaks.stamped, fun p seq => ?_, speaks.wire, speaks.search⟩
  dsimp only
  rcases c.pm.cargo_new_cases pkt p with fresh | old
  · rw [fresh]
    exact said seq
  · rw [old]
    exact speaks.held p seq

theorem track {x : Cargo} (now : Time) (seq : UInt32)
    (said : ∀ seq, P (stamp seq x.destinationStreamID x.sourceStreamID x.frames)) :
    (c.track now seq x).Speaks stamp P :=
  have fresh : Connection.Speaks stamp P
      { c with pm := (c.pm.new { toCargo := x, sequence := seq }).1 } := speaks.new said
  fresh.manage (PacketManager.cargo_sendPacket _ now _)

section

variable (now : Time) (dst src : UInt32)

theorem registerData {frames : List Frame} (said : ∀ seq, P (stamp seq dst src frames)) :
    (c.registerData now dst src frames).1.Speaks stamp P ∧
      P (c.registerData now dst src frames).2 := by
  have numbered : Connection.Speaks stamp P { c with pm := c.pm.nextSequence.1 } :=
    speaks.manage rfl
  refine ⟨(numbered.track (x := c.dataCargo dst src frames) now _ said).congr rfl rfl rfl
    speaks.search, ?_⟩
  show P (c.packet (UInt32.ofNat c.pm.nextSeq) dst src frames)
  rw [speaks.stamped]
  exact said _

theorem sendPacket {frames : List Frame} (said : ∀ seq, P (stamp seq dst src frames)) :
    (c.sendPacket now dst src frames).Speaks stamp P := by
  obtain ⟨registered, packet⟩ := speaks.registerData now dst src said
  have plain : P (c.packet 0 dst src frames) := by
    rw [speaks.stamped]
    exact said 0
  unfold Connection.sendPacket
  dsimp only
  split <;> split
  · exact registered
  · exact registered.put packet true
  · exact speaks
  · exact speaks.put plain true

theorem sendFor {s : Stream} {frames : List Frame}
    (said : ∀ f ∈ frames, ∀ seq, P (stamp seq s.remoteID s.id [f])) :
    (c.sendFor now s frames).Speaks stamp P := by
  unfold Connection.sendFor
  induction frames generalizing c with
  | nil => exact speaks
  | cons f rest ih =>
    obtain ⟨here, later⟩ := List.forall_mem_cons.mp said
    exact ih (speaks.sendPacket now s.remoteID s.id here) later

theorem setStream (t : Stream) : (c.setStream t).Speaks stamp P :=
  speaks.congr rfl rfl rfl speaks.search

theorem setStream_sendFor {t : Stream} {frames : List Frame}
    (said : ∀ f ∈ frames, ∀ seq, P (stamp seq t.remoteID t.id [f])) :
    ((c.setStream t).sendFor now t frames).Speaks stamp P :=
  (speaks.setStream t).sendFor now said

theorem sendStreamFrames [Float64 F] {offset : UInt64} {data : List UInt8} {chunkSize : Nat}
    {isSyn : Bool}
    (said : ∀ f ∈ streamFrames false offset isSyn (Chunks.chunks chunkSize data), ∀ seq,
      P (stamp seq dst src [.stream f])) :
    (c.sendStreamFrames now src dst offset data chunkSize isSyn).Speaks stamp P := by
  rw [sendStreamFrames_eq]
  generalize streamFrames false offset isSyn (Chunks.chunks chunkSize data) = frames at said
  suffices batched : ∀ acc : Connection F × List Packet, acc.1.Speaks stamp P →
      (∀ pkt ∈ acc.2, P pkt) → (frames.foldl (batch now dst src) acc).1.Speaks stamp P ∧
        ∀ pkt ∈ (frames.foldl (batch now dst src) acc).2, P pkt by
    obtain ⟨last, packets⟩ := batched (c, []) speaks (List.forall_mem_nil _)
    refine ⟨last.stamped, last.held, ?_, last.search⟩
    intro d member
    rcases List.mem_append.mp member with new | old
    · obtain ⟨pkt, prepared, rfl⟩ := List.mem_map.mp (List.mem_reverse.mp new)
      exact packets pkt prepared
    · exact last.wire d old
  induction frames with
  | nil => exact fun acc first packets => ⟨first, packets⟩
  | cons f rest ih =>
    intro acc first packets
    obtain ⟨here, later⟩ := List.forall_mem_cons.mp said
    obtain ⟨registered, packet⟩ := first.registerData now dst src here
    rw [List.foldl_cons]
    refine ih later _ ?_ ?_
    · unfold batch prepareDataPacket
      dsimp only
      split <;> exact registered.congr rfl rfl rfl registered.search
    · unfold batch prepareDataPacket
      dsimp only
      split
      · rw [Option.toList_none, List.append_nil]
        exact packets
      · exact List.forall_mem_append.mpr ⟨packets, List.forall_mem_singleton.mpr packet⟩

end

theorem retransmitPacket (p : Ptr) (seq : UInt32) : (c.retransmitPacket p seq).Speaks stamp P := by
  refine speaks.put ?_ false
  rw [speaks.stamped]
  exact speaks.held p seq

theorem resend (now : Time) (p : Ptr) :
    Connection.Speaks stamp P { c with pm := (c.pm.resend now p).1 } :=
  speaks.manage (c.pm.cargo_resend now p)

theorem allocate {pkt : SentPacket} {frames : List StreamFrame}
    (said : ∀ f ∈ frames, ∀ seq,
      P (stamp seq pkt.destinationStreamID pkt.sourceStreamID [.stream f])) :
    (Connection.allocate pkt c frames).1.Speaks stamp P := by
  induction frames generalizing c with
  | nil => exact speaks
  | cons f rest ih =>
    obtain ⟨here, later⟩ := List.forall_mem_cons.mp said
    exact ih (speaks.new here) later

variable (tolerates : stamp.Tolerates P)
include tolerates

theorem cut {p : Ptr} {sf : StreamFrame} {limit : Nat} {out : Connection F × List Ptr}
    (cut : Cut c p sf limit out) : out.1.Speaks stamp P := by
  rw [← cut.allocated]
  have dropped : Connection.Speaks stamp P { c with pm := c.pm.drop p } :=
    speaks.manage (c.pm.cargo_drop p)
  refine dropped.allocate fun f member seq => ?_
  have whole := speaks.held p 0
  rw [cut.frames] at whole
  exact tolerates.pieces whole cut.positive cut.long f member seq

theorem fitToPath (p : Ptr) : (c.fitToPath p).1.Speaks stamp P := by
  rcases c.fitToPath_cases p with same | ⟨sf, limit, cut⟩
  · rw [same]
    exact speaks
  · exact speaks.cut tolerates cut

variable [Float64 F] (now : Time)

omit tolerates in
theorem resendProbe (p : Ptr) : (Connection.resendProbe now c p).Speaks stamp P := by
  have resent := speaks.resend now p
  unfold Connection.resendProbe
  split
  · rename_i pm shape
    rw [shape] at resent
    exact resent
  · rename_i pm seq shape
    rw [shape] at resent
    exact (resent.retransmitPacket p seq).congr rfl rfl rfl speaks.search

theorem ptoProbe (p : Ptr) : (Connection.ptoProbe now c p).Speaks stamp P := by
  have fits := speaks.fitToPath tolerates p
  unfold Connection.ptoProbe
  generalize c.fitToPath p = out at fits
  obtain ⟨c, pieces⟩ := out
  induction pieces generalizing c with
  | nil => exact fits
  | cons q rest ih => exact ih _ (fits.resendProbe now q)

theorem onPTO : (c.onPTO now).Speaks stamp P := by
  rw [onPTO_eq]
  have shrunk : (c.blackholed now).Speaks stamp P := by
    unfold blackholed
    split
    · exact speaks.congr rfl rfl rfl (speaks.search.watched (MTUDiscovery.watched_blackholeLocked now))
    · exact speaks
  generalize c.blackholed now = d at shrunk
  generalize d.pm.oldestUnacked ptoProbes = ps
  induction ps generalizing d with
  | nil => exact shrunk
  | cons p rest ih => exact ih _ (shrunk.ptoProbe tolerates now p)

theorem onPtoTimeout : (c.onPtoTimeout now).Speaks stamp P := by
  have fired : Connection.Speaks stamp P { c with cc := c.cc.ptoFired } :=
    speaks.congr rfl rfl rfl speaks.search
  have probed := fired.onPTO tolerates now
  exact probed.congr rfl rfl rfl probed.search

theorem flushLoop (fuel : Nat) : (Connection.flushLoop now fuel c).Speaks stamp P := by
  induction fuel generalizing c with
  | zero => exact speaks
  | succ fuel ih =>
    cases queue : c.lostQueue with
    | nil =>
      rw [Connection.flushLoop, queue]
      exact speaks
    | cons p rest =>
      by_cases closed : c.state = .closed
      · rw [Connection.flushLoop, queue]
        dsimp only
        rw [if_pos closed]
        exact speaks.congr rfl rfl rfl speaks.search
      · rcases flushLoop_cons now queue closed fuel with ⟨c', round, same⟩ | halt
        · rw [same]
          apply ih
          cases round with
          | skipped | refused => exact speaks.congr rfl rfl rfl speaks.search
          | split sf limit out cut =>
            have cutted := speaks.cut tolerates cut
            exact cutted.congr rfl rfl rfl cutted.search
          | sent pm seq resent =>
            have renumbered := speaks.resend now p
            rw [resent] at renumbered
            have booked : Connection.Speaks stamp P { c with
                lostQueue := rest, pm := pm
                cc := { c.cc.onPacketSent now (pm.heap p).size with
                  pacer := (c.cc.onPacketSent now (pm.heap p).size).pacer.onPacketSent now
                    (pm.heap p).size } } :=
              renumbered.congr rfl rfl rfl speaks.search
            exact booked.retransmitPacket p seq
        · generalize Connection.flushLoop now (fuel + 1) c = c' at halt
          cases halt with
          | paced => exact speaks.congr rfl rfl rfl speaks.search
          | full => exact speaks

theorem flushLost : (c.flushLost now).Speaks stamp P := by
  have stopped : Connection.Speaks stamp P { c with lostTimer := none } :=
    speaks.congr rfl rfl rfl speaks.search
  exact stopped.flushLoop tolerates now _

omit speaks tolerates [Float64 F] in
theorem search_foldl_sortLost (pm : PacketManager) (countLarge : Bool) (lost : List Ptr)
    {acc : MTUDiscovery × List Ptr} (search : acc.1.Bracketed) :
    (lost.foldl (sortLost pm now countLarge) acc).1.Bracketed := by
  induction lost generalizing acc with
  | nil => exact search
  | cons p rest ih =>
    refine ih ?_
    unfold sortLost
    dsimp only
    split
    · exact search.onProbeLost _
    · split
      · exact search.watched (MTUDiscovery.watched_onDataLost now _)
      · exact search

theorem onPacketsLost (lost : List Ptr) : (c.onPacketsLost now lost).Speaks stamp P := by
  unfold Connection.onPacketsLost
  dsimp only
  have search : (lost.foldl (sortLost c.pm now (!c.ackedLarge)) (c.mtu, [])).1.Bracketed :=
    search_foldl_sortLost now c.pm (!c.ackedLarge) lost speaks.search
  generalize lost.foldl (sortLost c.pm now (!c.ackedLarge)) (c.mtu, []) = out at search
  split
  · exact speaks.congr rfl rfl rfl search
  · rename_i oldest rest _
    refine Speaks.flushLost ?_ tolerates now
    exact speaks.congr rfl rfl rfl search

theorem reportLost {detected : PacketManager × List Ptr} (cargo : detected.1.cargo = c.pm.cargo) :
    (c.reportLost now detected).Speaks stamp P := by
  have managed : Connection.Speaks stamp P { c with pm := detected.1 } := speaks.manage cargo
  unfold Connection.reportLost
  dsimp only
  split
  · exact managed.onPacketsLost tolerates now _
  · exact managed

theorem onLossTimer : (c.onLossTimer now).Speaks stamp P := by
  rw [onLossTimer_eq]
  have timedOut : c.timedOut.Speaks stamp P := speaks.congr rfl rfl rfl speaks.search
  exact timedOut.reportLost tolerates now (cargo_detectLostLocked now _ _)

omit [Float64 F] in
theorem sendProbe (size : { size : Nat // size ≤ maxDatagramSize }) (large : 100 ≤ size.val) :
    (c.sendProbe now size).Speaks stamp P := by
  have short : ∀ seq, (marshalPacket (c.packet seq 0 0 [.mtuProbe 1])).length ≤ 100 := by
    intro seq
    have here := c.localCID.bounded
    have there := c.remoteCID.bounded
    rw [maxCIDLength] at here there
    simp only [length_marshalPacket, packet, Packet.headerLen, Packet.framesLen, List.map_cons,
      List.map_nil, List.sum_cons, List.sum_nil, Frame.len, ConnectionID.len]
    split <;> omega
  have same : ∀ seq seq', c.probePacket seq size =
      { c.probePacket seq' size with sequence := seq } := by
    intro seq seq'
    simp only [probePacket, length_marshalPacket, packet, Packet.headerLen, Packet.framesLen]
  have said : ∀ seq', P (stamp seq' 0 0 (c.probePacket (UInt32.ofNat c.pm.nextSeq) size).frames) := by
    refine tolerates.probes ?_ fun seq => ?_
    · have := short (UInt32.ofNat c.pm.nextSeq)
      omega
    · rw [← speaks.stamped]
      have bound := c.length_probePacket_le seq size.property
      rw [same seq (UInt32.ofNat c.pm.nextSeq)] at bound
      exact bound
  rw [sendProbe_eq]
  have numbered : Connection.Speaks stamp P { c with pm := c.pm.nextSequence.1 } :=
    speaks.manage rfl
  refine (numbered.track (x := c.probeCargo size) now _ said).put ?_ false
  have first := said (UInt32.ofNat c.pm.nextSeq)
  rw [← speaks.stamped] at first
  exact first

omit speaks [Float64 F] tolerates in
theorem size_nextProbe {m : MTUDiscovery} (search : m.Bracketed) :
    (m.nextProbe now).2.val = 0 ∨ 100 ≤ (m.nextProbe now).2.val := by
  have probing := m.probing_nextProbe now
  generalize m.nextProbe now = out at probing
  cases probing with
  | wait | none => exact .inl rfl
  | restart => exact .inr (show 100 ≤ maxDatagramSize by decide)
  | issue _ open' _ =>
    have base := m.base
    have above := (search.inside open').1
    rw [safeDatagramSize] at base
    exact .inr (by dsimp only; omega)

omit [Float64 F] in
theorem probeMTU : (c.probeMTU now).Speaks stamp P := by
  have search := speaks.search.nextProbe now
  have size := size_nextProbe now speaks.search
  unfold Connection.probeMTU
  split
  · exact speaks
  · dsimp only
    generalize c.mtu.nextProbe now = out at search size
    have searched : Connection.Speaks stamp P { c with mtu := out.1 } :=
      speaks.congr rfl rfl rfl search
    split
    · exact searched
    · rename_i issued
      exact searched.sendProbe tolerates now out.2 (size.resolve_left issued)

omit speaks tolerates [Float64 F] in
theorem search_foldl_tallyAcked (pm : PacketManager) (largest : UInt32) (acked : List Ptr)
    {tally : AckTally} (search : tally.mtu.Bracketed) :
    (acked.foldl (tallyAcked pm largest) tally).mtu.Bracketed := by
  induction acked generalizing tally with
  | nil => exact search
  | cons p rest ih =>
    refine ih ?_
    unfold tallyAcked
    dsimp only
    have noted : (if (pm.heap p).sequence = largest then { tally with largest := some p }
        else tally).mtu.Bracketed := by
      split <;> exact search
    split
    · exact noted.onProbeAcked ((pm.heap p).fits ‹_›)
    · split
      · exact noted.watched (MTUDiscovery.watched_onDataAcked _)
      · exact noted

theorem handleAckFrame (f : AckFrame) : (c.handleAckFrame now f).Speaks stamp P := by
  have taken : (c.acknowledged now f).Speaks stamp P :=
    speaks.manage (c.pm.cargo_handleAckFrame now f)
  rw [handleAckFrame_eq]
  split
  · have credited : (c.credited now f).Speaks stamp P :=
      taken.congr rfl rfl rfl (search_foldl_tallyAcked _ _ _ speaks.search)
    have detected : ((c.credited now f).detectLostPackets now).Speaks stamp P :=
      credited.reportLost tolerates now (cargo_detectLostLocked now _ _)
    exact (detected.flushLost tolerates now).probeMTU tolerates now
  · exact taken

omit [Float64 F] in
theorem sendControl {f : Frame} (control : f.Control) (dst src : UInt32) :
    (c.sendPacket now dst src [f]).Speaks stamp P :=
  speaks.sendPacket now dst src fun seq => tolerates.control control seq dst src

omit [Float64 F] in
theorem sendControlTo {f : Frame} (control : f.Control) (addr : Addr) :
    (c.sendControlTo [f] addr).Speaks stamp P := by
  refine speaks.emit (d := ⟨c.packet 0 0 0 [f], addr, false⟩) ?_ _
  rw [speaks.stamped]
  exact tolerates.control control 0 0 0

omit [Float64 F] in
theorem noteReceived (pkt : Packet) : (c.noteReceived now pkt).Speaks stamp P := by
  unfold Connection.noteReceived
  dsimp only
  split
  · refine Speaks.sendControl (f := .ack _) ?_ tolerates now
      (RecvTracker.length_ackRanges_frame_le _ _) _ _
    exact speaks.congr rfl rfl rfl speaks.search
  · split <;> exact speaks.congr rfl rfl rfl speaks.search

omit [Float64 F] in
theorem ackTimerFired (dst src : UInt32) : (c.ackTimerFired now dst src).Speaks stamp P := by
  unfold Connection.ackTimerFired
  dsimp only
  split
  · exact speaks.congr rfl rfl rfl speaks.search
  · refine Speaks.sendControl (f := .ack _) ?_ tolerates now
      (RecvTracker.length_ackRanges_frame_le _ _) _ _
    exact speaks.congr rfl rfl rfl speaks.search

omit [Float64 F] in
theorem onStream (pkt : Packet) {op : Stream → Stream × List Frame}
    (control : ∀ s, ∀ f ∈ (op s).2, f.Control) : (c.onStream now pkt op).Speaks stamp P := by
  unfold Connection.onStream
  split
  · exact speaks
  · rename_i s _
    exact speaks.setStream_sendFor now fun f member seq =>
      tolerates.control (control s f member) seq _ _

omit [Float64 F] in
theorem handleStreamFrame (pkt : Packet) (f : StreamFrame) :
    (c.handleStreamFrame now pkt f).Speaks stamp P := by
  have delivers : ∀ {d : Connection F} (s : Stream), d.Speaks stamp P →
      (d.deliver now s f).Speaks stamp P := by
    intro d s spoken
    have answers : ∀ g ∈ (if f.data.length > 0 then s.deliverData f.offset.toNat f.data
        else (s, [])).2, g.Control := by
      split
      · exact s.control_deliverData _ _
      · exact List.forall_mem_nil _
    exact spoken.setStream_sendFor now fun g member seq =>
      tolerates.control (answers g member) seq _ _
  rw [handleStreamFrame_eq]
  have found : (c.streamFor pkt.destinationStreamID pkt.sourceStreamID f).1.Speaks stamp P := by
    unfold streamFor
    split
    · exact speaks
    · split
      · exact speaks.congr rfl rfl rfl speaks.search
      · exact speaks
  split
  · rename_i shape
    rw [shape] at found
    exact found
  · rename_i shape
    rw [shape] at found
    exact delivers _ found

omit tolerates [Float64 F] in
theorem closeInternal (code : UInt32) (reason : List UInt8) (announce : Bool)
    (said : ∀ seq, P (stamp seq 0 0 [.connectionClose ⟨code, 0, reason⟩])) :
    (c.closeInternal now code reason announce).Speaks stamp P := by
  have closing : Connection.Speaks stamp P
      { c with state := .closing, ackTimer := none, ackPending := 0 } :=
    speaks.congr rfl rfl rfl speaks.search
  have told : (c.announced now code reason announce).Speaks stamp P := by
    unfold announced
    dsimp only
    split
    · exact closing.sendPacket now 0 0 said
    · exact closing
  have resets : ∀ (streams : List Stream) (d : Connection F), d.Speaks stamp P →
      (streams.foldl (fun c s => c.setStream (s.deliverReset code)) d).Speaks stamp P := by
    intro streams
    induction streams with
    | nil => exact fun d spoken => spoken
    | cons s rest ih => exact fun d spoken => ih _ (spoken.setStream _)
  rw [closeInternal_eq]
  split
  · exact speaks
  · have reset : ((c.announced now code reason announce).resetAll code).Speaks stamp P :=
      resets _ _ (told.congr rfl rfl rfl told.search)
    refine ⟨reset.stamped, fun p seq => ?_, reset.wire, reset.search⟩
    exact reset.held p seq

theorem handleFrame (pkt : Packet) (f : Frame) :
    (Connection.handleFrame now pkt c f).Speaks stamp P := by
  cases f with
  | stream f => exact speaks.handleStreamFrame tolerates now pkt f
  | ack f => exact speaks.handleAckFrame tolerates now f
  | windowUpdate => exact speaks.onStream tolerates now pkt fun s => List.forall_mem_nil _
  | resetStream => exact speaks.onStream tolerates now pkt fun s => List.forall_mem_nil _
  | stopSending _ code => exact speaks.onStream tolerates now pkt fun s => s.control_reset code
  | streamDataBlocked =>
    exact speaks.onStream tolerates now pkt fun s => List.forall_mem_singleton.mpr trivial
  | connectionClose =>
    exact speaks.closeInternal now _ [] _ fun seq =>
      tolerates.control (f := .connectionClose ⟨_, 0, []⟩) rfl seq 0 0
  | pathChallenge data =>
    exact speaks.sendControl (f := .pathResponse data) tolerates now trivial 0 0
  | dataBlocked => exact speaks.sendControl (f := .maxData _) tolerates now trivial 0 0
  | maxData limit =>
    show Connection.Speaks stamp P { c with fc := c.fc.updateMaxData (wrap64 limit.toNat) }
    exact speaks.congr rfl rfl rfl speaks.search
  | pathResponse data =>
    simp only [Connection.handleFrame, Connection.completeMigration]
    cases c.pendingAddr with
    | none => exact speaks.congr rfl rfl rfl speaks.search
    | some addr =>
      by_cases answers : data = c.pendingChallenge
      · simp only [answers, ne_eq, not_true_eq_false, ↓reduceIte]
        exact speaks.congr rfl rfl rfl speaks.search
      · simp only [answers, ne_eq, not_false_eq_true, ↓reduceIte]
        exact speaks.congr rfl rfl rfl speaks.search
  | maxStreams count =>
    unfold Connection.handleFrame
    dsimp only
    split
    · exact speaks.congr rfl rfl rfl speaks.search
    · exact speaks
  | padding | ping | mtuProbe | newConnectionID | retireConnectionID => exact speaks

end Speaks

/-- What an input gives the connection to say is `P`: a write's data, the end of a
stream, the reason for closing. -/
def Utters (stamp : Packet.Stamp) (P : Packet → Prop) (c : Connection F) [Float64 F] :
    Host.Input → Prop
  | .write now id entering data => ∀ s ask granted t batch, c.streams.lookup id = some s →
    s.writeAsk c.mtu.current data.length = some ask →
    c.awaitSendCreditUpTo now ask.first ask.want = some granted →
    s.writeCommit ask granted data.length = some (t, batch) →
    (∃ c', c.writeBatch now id entering data = some (c', batch.granted)) →
      ∀ f ∈ streamFrames false (UInt64.ofNat batch.offset) batch.isSyn
        (Chunks.chunks ask.chunkSize (data.take batch.granted)),
        ∀ seq, P (stamp seq t.remoteID t.id [.stream f])
  | .closeStream _ id => ∀ s, c.streams.lookup id = some s → s.state ≠ .closed → s.state ≠ .reset →
    ∀ seq, P (stamp seq s.remoteID s.id [.stream ⟨true, false, UInt64.ofNat s.bytesWritten, []⟩])
  | .close _ code reason => ∀ seq, P (stamp seq 0 0 [.connectionClose ⟨code, 0, reason⟩])
  | _ => True

end Connection

namespace Host

variable {F : Type} [Float64 F] {stamp : Packet.Stamp} {P : Packet → Prop} {h h' : Host F}

/-- Whatever happens to a connection, what it says is `P` if what it is given to say is. -/
theorem speaks_step (tolerates : stamp.Tolerates P) {input : Input}
    (speaks : h.conn.Speaks stamp P) (utters : h.conn.Utters stamp P input)
    (taken : h.step input = some h') : h'.conn.Speaks stamp P := by
  cases input with
  | arrive now pkt =>
    obtain rfl := Option.some.inj taken
    exact speaks.congr rfl rfl rfl speaks.search
  | frame now pkt f =>
    obtain rfl := Option.some.inj taken
    exact speaks.handleFrame tolerates now pkt f
  | note now pkt =>
    rw [step] at taken
    split at taken
    · cases taken
    · obtain rfl := Option.some.inj taken
      exact speaks.noteReceived tolerates now pkt
  | observeAddr now addr challenge =>
    obtain rfl := Option.some.inj taken
    show (h.conn.observeAddr now addr challenge).1.Speaks stamp P
    unfold Connection.observeAddr
    repeat' split
    all_goals first | exact speaks | exact speaks.congr rfl rfl rfl speaks.search
  | sendChallenge i =>
    simp only [step, Option.bind_eq_bind, Option.bind_eq_some_iff] at taken
    obtain ⟨⟨challenge, addr⟩, present, out⟩ := taken
    obtain rfl := Option.some.inj out
    exact speaks.sendControlTo (f := .pathChallenge challenge) tolerates trivial addr
  | ackTimer now src dst =>
    obtain rfl := Option.some.inj taken
    exact speaks.ackTimerFired tolerates now src dst
  | lossTimer now =>
    obtain rfl := Option.some.inj taken
    exact speaks.onLossTimer tolerates now
  | pto now =>
    obtain rfl := Option.some.inj taken
    exact speaks.onPtoTimeout tolerates now
  | flushLost now =>
    obtain rfl := Option.some.inj taken
    exact speaks.flushLost tolerates now
  | idleCheck now =>
    rw [step, Connection.onIdleCheck] at taken
    obtain rfl := Option.some.inj taken
    dsimp only
    split
    · exact speaks.closeInternal now _ [] _ fun seq =>
      tolerates.control (f := .connectionClose ⟨_, 0, []⟩) rfl seq 0 0
    · exact speaks
  | openStream =>
    obtain rfl := Option.some.inj taken
    dsimp only
    unfold Connection.openStream
    split
    · exact speaks
    · split
      · exact speaks
      · exact speaks.congr rfl rfl rfl speaks.search
  | acceptStream =>
    obtain ⟨out, accepted, rfl⟩ := Option.map_eq_some_iff.mp taken
    obtain ⟨id, rest, -, rfl⟩ := Connection.acceptStream_eq_some accepted
    exact speaks.congr rfl rfl rfl speaks.search
  | write now id entering data =>
    obtain ⟨out, written, rfl⟩ := Option.map_eq_some_iff.mp taken
    obtain ⟨s, ask, granted, t, batch, found, asked, admitted, committed, rfl⟩ :=
      Connection.writeBatch_eq_some now written
    exact (speaks.setStream t).sendStreamFrames now _ _
      (utters s ask granted t batch found asked admitted committed ⟨_, written⟩)
  | writeBlocked now id =>
    obtain ⟨c, blocked, rfl⟩ := Option.map_eq_some_iff.mp taken
    obtain ⟨s, -, -, rfl⟩ := Connection.writeBlocked_eq_some now blocked
    exact speaks.sendFor now (List.forall_mem_singleton.mpr fun seq =>
      tolerates.control (f := .streamDataBlocked _ _) trivial seq _ _)
  | read now id size expired =>
    obtain ⟨out, read, rfl⟩ := Option.map_eq_some_iff.mp taken
    obtain ⟨s, -, rfl⟩ := Connection.read_eq_some now read
    exact speaks.setStream_sendFor now fun f member seq =>
      tolerates.control (s.control_read size expired f member) seq _ _
  | closeStream now id =>
    obtain ⟨c, called, rfl⟩ := Option.map_eq_some_iff.mp taken
    obtain ⟨s, found, rfl⟩ := Connection.callStream_eq_some now called
    refine speaks.setStream_sendFor now ?_
    unfold Stream.close
    split
    · exact List.forall_mem_nil _
    · rename_i live
      obtain ⟨opened, unreset⟩ := not_or.mp live
      exact List.forall_mem_singleton.mpr (utters s found opened unreset)
  | resetStream now id code =>
    obtain ⟨c, called, rfl⟩ := Option.map_eq_some_iff.mp taken
    obtain ⟨s, found, rfl⟩ := Connection.callStream_eq_some now called
    exact speaks.setStream_sendFor now fun f member seq =>
      tolerates.control (s.control_reset code f member) seq _ _
  | ping now =>
    obtain rfl := Option.some.inj taken
    exact speaks.sendControl (f := .ping) tolerates now trivial 0 0
  | close now code reason =>
    obtain rfl := Option.some.inj taken
    exact speaks.closeInternal now code reason true utters
  | migrate now newAddr challenge =>
    obtain rfl := Option.some.inj taken
    exact speaks.sendControl (f := .pathChallenge challenge) tolerates now trivial 0 0
  | answer i =>
    simp only [step, Option.bind_eq_bind, Option.bind_eq_some_iff] at taken
    obtain ⟨⟨challenge, newAddr⟩, waits, c, finished, out⟩ := taken
    obtain rfl := Option.some.inj out
    obtain ⟨resp, answered, rfl⟩ := Connection.finishPathMigration_eq_some finished
    dsimp only
    split <;> exact speaks.congr rfl rfl rfl speaks.search
  | giveUp i =>
    obtain rfl := Option.some.inj taken
    exact speaks

end Host

/-- How a connection with these IDs makes its packets. -/
def Packet.Stamp.between (localCID remoteCID : ConnectionID) : Packet.Stamp :=
  fun seq dst src frames =>
  { version := versionCurrent, destinationCID := remoteCID, sourceCID := localCID
    sequence := seq, destinationStreamID := dst, sourceStreamID := src, frames := frames }

/-- A packet from one connection to another that the format carries and a datagram
holds. -/
structure Packet.Legible (localCID remoteCID : ConnectionID) (pkt : Packet) : Prop where
  version : pkt.version = versionCurrent
  destination : pkt.destinationCID = remoteCID
  source : pkt.sourceCID = localCID
  encodable : pkt.Encodable
  fits : (marshalPacket pkt).length ≤ maxDatagramSize

/-- The reason a connection is closed for fits a datagram. -/
def Host.Input.Brief : Host.Input → Prop
  | .close _ _ reason => reason.length + streamChunkOverhead ≤ maxDatagramSize
  | _ => True

namespace Packet

variable {localCID remoteCID : ConnectionID} {seq dst src : UInt32}

theorem legible_of_frame {f : Frame} (encodable : f.Encodable)
    (short : f.len + 58 ≤ maxDatagramSize) :
    (Stamp.between localCID remoteCID seq dst src [f]).Legible localCID remoteCID := by
  refine ⟨rfl, rfl, rfl, ⟨List.forall_mem_singleton.mpr encodable, List.forall_mem_nil _⟩, ?_⟩
  have here := localCID.bounded
  have there := remoteCID.bounded
  rw [maxCIDLength] at here there
  simp only [length_marshalPacket, Stamp.between, headerLen, framesLen, List.map_cons,
    List.map_nil, List.sum_cons, List.sum_nil, ConnectionID.len]
  omega

theorem legible_of_data {sf : StreamFrame}
    (short : sf.data.length + streamChunkOverhead ≤ maxDatagramSize) :
    (Stamp.between localCID remoteCID seq dst src [.stream sf]).Legible localCID remoteCID := by
  rw [streamChunkOverhead, maxDatagramSize] at short
  refine legible_of_frame ?_ ?_
  · simp only [Frame.Encodable]
    omega
  · simp only [Frame.len, streamFrameHeaderLen, maxDatagramSize]
    omega

theorem legible_of_smaller {small large : StreamFrame}
    (legible : (Stamp.between localCID remoteCID seq dst src [.stream large]).Legible localCID
      remoteCID) (smaller : small.data.length ≤ large.data.length) (seq' : UInt32) :
    (Stamp.between localCID remoteCID seq' dst src [.stream small]).Legible localCID remoteCID := by
  obtain ⟨-, -, -, ⟨frames, -⟩, fits⟩ := legible
  have encodable := List.forall_mem_singleton.mp frames
  refine ⟨rfl, rfl, rfl, ⟨List.forall_mem_singleton.mpr (smaller.trans encodable),
    List.forall_mem_nil _⟩, ?_⟩
  simp only [length_marshalPacket, Stamp.between, headerLen, framesLen, List.map_cons,
    List.map_nil, List.sum_cons, List.sum_nil, Frame.len] at fits ⊢
  omega

end Packet

theorem tolerates_legible (localCID remoteCID : ConnectionID) :
    (Packet.Stamp.between localCID remoteCID).Tolerates (Packet.Legible localCID remoteCID) where
  blank seq := by
    refine ⟨rfl, rfl, rfl, ⟨List.forall_mem_nil _, List.forall_mem_nil _⟩, ?_⟩
    have here := localCID.bounded
    have there := remoteCID.bounded
    rw [maxCIDLength] at here there
    simp only [length_marshalPacket, Packet.Stamp.between, Packet.headerLen, Packet.framesLen,
      List.map_nil, List.sum_nil, ConnectionID.len, maxDatagramSize]
    omega
  control {f} control seq dst src := by
    have shape : f.Encodable ∧ f.len + 58 ≤ maxDatagramSize := by
      cases f with
      | ack g =>
        have few : g.ackRanges.length ≤ 5 := control
        simp only [Frame.Encodable, Frame.len, maxDatagramSize]
        omega
      | connectionClose g =>
        have silent : g.reasonPhrase = [] := control
        simp [Frame.Encodable, Frame.len, maxDatagramSize, silent]
      | _ =>
        first
        | exact control.elim
        | simp [Frame.Encodable, Frame.len, maxDatagramSize]
    exact Packet.legible_of_frame shape.1 shape.2
  pieces legible positive long piece member seq' :=
    Packet.legible_of_smaller legible
      (((Chunks.length_of_mem_chunks positive (data_of_mem_streamFrames member)).2).trans long.le)
      seq'
  probes {padding} padded fits seq :=
    ⟨rfl, rfl, rfl, ⟨List.forall_mem_singleton.mpr padded, List.forall_mem_nil _⟩, fits seq⟩

namespace Connection

variable {F : Type} [Float64 F] {localCID remoteCID : ConnectionID} {c : Connection F}

theorem utters_legible {input : Host.Input} (brief : input.Brief) :
    c.Utters (.between localCID remoteCID) (Packet.Legible localCID remoteCID) input := by
  cases input with
  | write now id entering data =>
    intro s ask granted t batch found asked admitted committed done f member seq
    have size : ask.chunkSize = Stream.chunkSizeLocked c.mtu.current :=
      congrArg Stream.Ask.chunkSize (s.writeAsk_eq_some asked).1
    have base := c.mtu.base
    have top := c.mtu.top
    rw [Stream.chunkSizeLocked, streamChunkOverhead] at size
    rw [safeDatagramSize] at base
    have positive : 0 < ask.chunkSize := by omega
    have part := (Chunks.length_of_mem_chunks positive (data_of_mem_streamFrames member)).2
    refine Packet.legible_of_data ?_
    rw [streamChunkOverhead]
    omega
  | closeStream now id =>
    intro s found opened unreset seq
    exact Packet.legible_of_data (show 0 + streamChunkOverhead ≤ maxDatagramSize by decide)
  | close now code reason =>
    intro seq
    have short : reason.length + streamChunkOverhead ≤ maxDatagramSize := brief
    rw [streamChunkOverhead, maxDatagramSize] at short
    refine Packet.legible_of_frame ?_ ?_
    · simp only [Frame.Encodable]
      omega
    · simp only [Frame.len, maxDatagramSize]
      omega
  | _ => trivial

end Connection

theorem Connection.Speaks.ids {F : Type} {P : Packet → Prop} {localCID remoteCID : ConnectionID}
    {c : Connection F} (speaks : c.Speaks (.between localCID remoteCID) P) :
    c.localCID = localCID ∧ c.remoteCID = remoteCID := by
  have first := congrFun (congrFun (congrFun (congrFun speaks.stamped 0) 0) 0) []
  exact ⟨congrArg Packet.sourceCID first, congrArg Packet.destinationCID first⟩

theorem Connection.Speaks.between {F : Type} {P : Packet → Prop}
    {localCID remoteCID : ConnectionID} {c : Connection F}
    (speaks : c.Speaks (.between localCID remoteCID) P) :
    c.Speaks (.between c.localCID c.remoteCID) P := by
  obtain ⟨here, there⟩ := speaks.ids
  rw [here, there]
  exact speaks

/-- Whatever happens to a host, its peer can read all it has sent. -/
def Host.Legible {F : Type} (h : Host F) : Prop :=
  h.conn.Speaks (.between h.conn.localCID h.conn.remoteCID)
    (Packet.Legible h.conn.localCID h.conn.remoteCID)

namespace Host

variable {F : Type} [Float64 F] {h h' : Host F}

theorem speaks_legible {input : Input} (legible : h.Legible) (brief : input.Brief)
    (taken : h.step input = some h') :
    h'.conn.Speaks (.between h.conn.localCID h.conn.remoteCID)
      (Packet.Legible h.conn.localCID h.conn.remoteCID) :=
  speaks_step (tolerates_legible _ _) legible (Connection.utters_legible brief) taken

theorem legible_step {input : Input} (legible : h.Legible) (brief : input.Brief)
    (taken : h.step input = some h') : h'.Legible := by
  have speaks := speaks_legible legible brief taken
  obtain ⟨here, there⟩ := speaks.ids
  unfold Legible
  rw [here, there]
  exact speaks

theorem cids_step {input : Input} (legible : h.Legible) (brief : input.Brief)
    (taken : h.step input = some h') :
    h'.conn.localCID = h.conn.localCID ∧ h'.conn.remoteCID = h.conn.remoteCID :=
  (speaks_legible legible brief taken).ids

theorem legible_run {inputs : List Input} (legible : h.Legible)
    (brief : ∀ input ∈ inputs, input.Brief) (reached : Runs.run step h inputs = some h') :
    h'.Legible ∧ h'.conn.localCID = h.conn.localCID ∧ h'.conn.remoteCID = h.conn.remoteCID := by
  refine Runs.invariant (fun t : Host F => t.Legible ∧ t.conn.localCID = h.conn.localCID ∧
    t.conn.remoteCID = h.conn.remoteCID) ?_ ⟨legible, rfl, rfl⟩
    (Runs.along_of_forall (fun input member _ => brief input member) h) reached
  rintro t input t' ⟨legible, here, there⟩ brief taken
  obtain ⟨here', there'⟩ := cids_step legible brief taken
  exact ⟨legible_step legible brief taken, here'.trans here, there'.trans there⟩

end Host

end Udx

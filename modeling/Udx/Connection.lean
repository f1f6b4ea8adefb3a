import Udx.AckTracker
import Udx.Congestion
import Udx.Lib.Chunks
import Udx.Packet
import Udx.Pmtud
import Udx.Stream

set_option autoImplicit false

namespace Udx

abbrev Addr := String

/-- A packet handed to the socket. The socket carries `marshalPacket packet`,
which decodes to the packet again. `checked` records whether the
anti-amplification limit was consulted for it. -/
structure Datagram where
  packet : Packet
  addr : Addr
  checked : Bool
deriving DecidableEq

inductive ConnectionState where
  | new
  | handshaking
  | established
  | closing
  | closed
deriving DecidableEq, Repr

/-- When the ACK timer fires, and the stream IDs its ACK goes out under. -/
structure AckTimer where
  fires : Time
  srcStreamID : UInt32
  dstStreamID : UInt32
deriving DecidableEq

/-- One peer's connection. `wire` is everything handed to the socket, the last
first. -/
structure Connection (F : Type) where
  localCID : ConnectionID
  remoteCID : ConnectionID
  remoteAddr : Addr
  state : ConnectionState := .new
  streams : AList (fun _ : UInt32 => Stream) := ∅
  nextStreamID : UInt32
  maxStreams : Nat := initialMaxStreams
  incomingStreams : List UInt32 := []
  cc : CongestionController F
  pm : PacketManager := {}
  fc : FlowController := { connMaxData := initialMaxData }
  mtu : MTUDiscovery := newMTUDiscovery
  ackedLarge : Bool := false
  pathChallengeResp : Option (Vector UInt8 8) := none
  pendingAddr : Option Addr := none
  pendingChallenge : Vector UInt8 8 := Vector.replicate 8 0
  pendingSentAt : Time := 0
  recvd : RecvTracker := {}
  ackPending : Nat := 0
  ackTimer : Option AckTimer := none
  largestArrival : Option Time := none
  bytesSent : Nat := 0
  bytesReceived : Nat := 0
  addrValidated : Bool
  lostQueue : List Ptr := []
  lostTimer : Option Time := none
  lastActivity : Time
  wire : List Datagram := []

/-- A frame that consumes a sequence number. -/
def Frame.bearsData : Frame → Bool
  | .stream f => f.data.length > 0 || f.isSyn || f.isFin
  | _ => false

def isDataBearing (pkt : Packet) : Bool := pkt.frames.any Frame.bearsData

def Frame.isProbe : Frame → Bool
  | .ping | .mtuProbe _ => true
  | _ => false

/-- A PING or path-MTU probe under a nonzero sequence. -/
def isNumberedProbe (pkt : Packet) : Bool :=
  if pkt.sequence = 0 then false else pkt.frames.any Frame.isProbe

/-- Data as consecutive STREAM frames from `offset`, the SYN on the first and
the FIN on the last. -/
def streamFrames (isFin : Bool) : UInt64 → Bool → List (List UInt8) → List StreamFrame
  | _, _, [] => []
  | offset, isSyn, data :: rest =>
    ⟨isFin && rest.isEmpty, isSyn, offset, data⟩ ::
      streamFrames isFin (offset + UInt64.ofNat data.length) false rest

theorem toNat_offset_add {offset : UInt64} {length : Nat}
    (small : offset.toNat + length < 2 ^ 64) :
    (offset + UInt64.ofNat length).toNat = offset.toNat + length := by
  have short : length < 2 ^ 64 := by omega
  rw [UInt64.toNat_add, UInt64.toNat_ofNat_of_lt' short]
  exact Nat.mod_eq_of_lt small

variable {F : Type} [Float64 F]

def newConnection (localCID remoteCID : ConnectionID) (remoteAddr : Addr) (isInitiator : Bool)
    (addrValidated : Bool) (now : Time) : Connection F :=
  { localCID := localCID, remoteCID := remoteCID, remoteAddr := remoteAddr
    nextStreamID := if isInitiator then 1 else 2
    cc := newCongestionController, addrValidated := addrValidated, lastActivity := now }

namespace Connection

variable (c : Connection F)

def packet (seq dstStreamID srcStreamID : UInt32) (frames : List Frame) : Packet :=
  { version := versionCurrent, destinationCID := c.remoteCID, sourceCID := c.localCID
    sequence := seq, destinationStreamID := dstStreamID, sourceStreamID := srcStreamID
    frames := frames }

def put (checked : Bool) (pkt : Packet) : Connection F :=
  { c with
    bytesSent := c.bytesSent + (marshalPacket pkt).length
    wire := ⟨pkt, c.remoteAddr, checked⟩ :: c.wire }

/-- The anti-amplification limit says the packet may not go out. -/
def limited (size : Nat) : Bool :=
  !c.addrValidated && c.bytesSent + size > c.bytesReceived * amplificationFactor

def track (now : Time) (seq : UInt32) (cargo : Cargo) : Connection F :=
  let (pm, p) := c.pm.new { toCargo := cargo, sequence := seq }
  { c with pm := pm.sendPacket now p }

/-- Sequences, tracks and books one data-bearing packet, and returns it. -/
def registerData (now : Time) (dstStreamID srcStreamID : UInt32) (frames : List Frame) :
    Connection F × Packet :=
  let (pm, seq) := c.pm.nextSequence
  let pkt := c.packet seq dstStreamID srcStreamID frames
  let size := (marshalPacket pkt).length
  let c := { c with pm := pm }.track now seq
    { size := size, frames := frames, destinationStreamID := dstStreamID
      sourceStreamID := srcStreamID }
  ({ c with cc := c.cc.onPacketSent now size }, pkt)

def sendPacket (now : Time) (dstStreamID srcStreamID : UInt32) (frames : List Frame) :
    Connection F :=
  let (c, pkt) :=
    if frames.any Frame.bearsData then c.registerData now dstStreamID srcStreamID frames
    else (c, c.packet 0 dstStreamID srcStreamID frames)
  if c.limited (marshalPacket pkt).length then c else c.put true pkt

def sendFrames (now : Time) (frames : List Frame) : Connection F := c.sendPacket now 0 0 frames

/-- Puts a packet back on the wire under the number `seq`. -/
def retransmitPacket (p : Ptr) (seq : UInt32) : Connection F :=
  let pkt := c.pm.heap p
  c.put false (c.packet seq pkt.destinationStreamID pkt.sourceStreamID pkt.frames)

/-- One data packet of a batch, which goes out only if it is not limited. -/
def prepareDataPacket (now : Time) (dstStreamID srcStreamID : UInt32) (frames : List Frame) :
    Connection F × Option Packet :=
  let (c, pkt) := c.registerData now dstStreamID srcStreamID frames
  let size := (marshalPacket pkt).length
  let c := { c with cc := { c.cc with pacer := c.cc.pacer.onPacketSent now size } }
  if c.limited size then (c, none) else ({ c with bytesSent := c.bytesSent + size }, some pkt)

def writeDatagrams (pkts : List Packet) : Connection F :=
  { c with wire := (pkts.map fun pkt => ⟨pkt, c.remoteAddr, true⟩).reverse ++ c.wire }

/-- Sends data as consecutive STREAM frames of at most `chunkSize` bytes. -/
def sendStreamFrames (now : Time) (streamID remoteID : UInt32) (offset : UInt64)
    (data : List UInt8) (chunkSize : Nat) (isSyn : Bool) : Connection F :=
  let frames := streamFrames false offset isSyn (Chunks.chunks chunkSize data)
  let (c, bufs) := frames.foldl
    (fun (c, bufs) frame =>
      let (c, buf) := prepareDataPacket c now remoteID streamID [.stream frame]
      (c, bufs ++ buf.toList))
    (c, [])
  c.writeDatagrams bufs

/-- Sends each frame of a stream in a packet of its own. -/
def sendFor (now : Time) (s : Stream) (frames : List Frame) : Connection F :=
  frames.foldl (fun c frame => c.sendPacket now s.remoteID s.id [frame]) c

def setStream (s : Stream) : Connection F := { c with streams := c.streams.insert s.id s }

def findStream (localID remoteID : UInt32) : Option Stream :=
  match c.streams.lookup localID with
  | some s => some s
  | none =>
    if remoteID ≠ 0 then
      (c.streams.entries.map Sigma.snd).find? fun s => s.remoteID = remoteID
    else none

def openStream : Connection F × Option UInt32 :=
  if c.state = .closed ∨ c.state = .closing then (c, none)
  else if c.streams.entries.length ≥ c.maxStreams then (c, none)
  else
    let id := c.nextStreamID
    ({ c with nextStreamID := c.nextStreamID + 2 }.setStream (newStream id 0 initialFC), some id)

/-- Takes a stream the peer opened, or none while there is none. -/
def acceptStream : Option (Connection F × UInt32) :=
  match c.incomingStreams with
  | [] => none
  | id :: rest => some ({ c with incomingStreams := rest }, id)

/-- The stream a STREAM frame is for, created if the frame can open one. -/
def streamFor (localID remoteID : UInt32) (f : StreamFrame) : Connection F × Option Stream :=
  match c.findStream localID remoteID with
  | some s => (c, some s)
  | none =>
    if remoteID ≠ 0 ∧ (f.isSyn ∨ f.data.length > 0) then
      let id := c.nextStreamID
      let s := { newStream id remoteID initialFC with state := .opened }
      let c := { c with nextStreamID := c.nextStreamID + 2 }.setStream s
      ({ c with
        incomingStreams :=
          if c.incomingStreams.length < 16 then c.incomingStreams ++ [id] else c.incomingStreams },
        some s)
    else (c, none)

def handleStreamFrame (now : Time) (pkt : Packet) (f : StreamFrame) : Connection F :=
  match c.streamFor pkt.destinationStreamID pkt.sourceStreamID f with
  | (c, none) => c
  | (c, some s) =>
    let (s, out) := if f.data.length > 0 then s.deliverData f.offset.toNat f.data else (s, [])
    let s :=
      if f.isFin then s.deliverFin ((f.offset.toNat + f.data.length) % 2 ^ 64) else s
    (c.setStream s).sendFor now s out

/-- The length of a packet with this frame, as `fitToPath` measures it. -/
def pieceSize (cargo : Cargo) (frame : StreamFrame) : Nat :=
  (marshalPacket (c.packet 0 cargo.destinationStreamID cargo.sourceStreamID
    [.stream frame])).length

/-- Allocates the pieces of a packet, in order. -/
def allocate (pkt : SentPacket) : Connection F → List StreamFrame → Connection F × List Ptr
  | c, [] => (c, [])
  | c, frame :: rest =>
    let (pm, p) := c.pm.new
      { size := c.pieceSize pkt.toCargo frame, frames := [.stream frame]
        destinationStreamID := pkt.destinationStreamID, sourceStreamID := pkt.sourceStreamID
        firstSentTime := pkt.firstSentTime, retransmitCount := pkt.retransmitCount }
    let (c, ps) := allocate pkt { c with pm := pm } rest
    (c, p :: ps)

/-- Re-chunks a packet larger than `limit` into packets that fit, in its place. -/
def fitTo (limit : Nat) (p : Ptr) : Connection F × List Ptr :=
  let pkt := c.pm.heap p
  if pkt.size ≤ limit then (c, [p])
  else
    match pkt.frames with
    | [.stream sf] =>
      let piece : Int := limit - c.pieceSize pkt.toCargo ⟨false, sf.isSyn, sf.offset, []⟩
      if piece ≤ 0 ∨ piece ≥ sf.data.length then (c, [p])
      else
        allocate pkt { c with pm := c.pm.drop p }
          (streamFrames sf.isFin sf.offset sf.isSyn (Chunks.chunks piece.toNat sf.data))
    | _ => (c, [p])

/-- `fitTo` at the size the path now carries. -/
def fitToPath (p : Ptr) : Connection F × List Ptr := c.fitTo c.mtu.current p

/-- A probe or a piece of one goes out under a fresh number. -/
def resendProbe (now : Time) (c : Connection F) (p : Ptr) : Connection F :=
  match c.pm.resend now p with
  | (pm, none) => { c with pm := pm }
  | (pm, some seq) =>
    let c := { c with pm := pm }.retransmitPacket p seq
    { c with cc := { c.cc with pacer := c.cc.pacer.onPacketSent now (c.pm.heap p).size } }

def onPTO (now : Time) : Connection F :=
  let c :=
    if c.cc.ptoCount ≥ blackholePTOs then { c with mtu := c.mtu.blackholeLocked now } else c
  (c.pm.oldestUnacked ptoProbes).foldl
    (fun c p =>
      let (c, pieces) := fitToPath c p
      pieces.foldl (resendProbe now) c) c

def onPtoTimeout (now : Time) : Connection F :=
  let c := { c with cc := c.cc.ptoFired }.onPTO now
  { c with cc := c.cc.ptoRearm now }

/-- The loop of `flushLost`. A round takes a packet off the queue, or splits one
into smaller pieces, or ends the loop. -/
def flushLoop (now : Time) : Nat → Connection F → Connection F
  | 0, c => c
  | fuel + 1, c =>
    match c.lostQueue with
    | [] => c
    | p :: rest =>
      if c.state = .closed then { c with lostQueue := [] }
      else if (c.pm.heap p).isAcked then flushLoop now fuel { c with lostQueue := rest }
      else
        let (c, pieces) :=
          if (c.pm.heap p).size > c.mtu.current then c.fitToPath p else (c, [p])
        if pieces.length > 1 then flushLoop now fuel { c with lostQueue := pieces ++ rest }
        else if c.cc.pacer.timeUntilSend now > 0 then
          { c with lostTimer := some (now + c.cc.pacer.timeUntilSend now) }
        else if !c.cc.canSend (c.pm.heap p).size then c
        else
          let c := { c with lostQueue := rest }
          match c.pm.resend now p with
          | (pm, none) => flushLoop now fuel { c with pm := pm }
          | (pm, some seq) =>
            let size := (pm.heap p).size
            let cc := c.cc.onPacketSent now size
            let c := { c with
              pm := pm
              cc := { cc with pacer := cc.pacer.onPacketSent now size } }
            flushLoop now fuel (c.retransmitPacket p seq)

/-- Enough rounds for the queue: a packet of `n` data bytes splits into at most
`n` pieces, which are shorter. -/
def flushRounds : Nat :=
  (c.lostQueue.map fun p => (c.pm.heap p).dataLen ^ 2 + 1).sum + 1

/-- Re-sends queued lost packets while the window and the pacer allow. -/
def flushLost (now : Time) : Connection F :=
  flushLoop now c.flushRounds { c with lostTimer := none }

/-- One lost packet's part: a probe reports its size, data is kept. -/
def sortLost (pm : PacketManager) (now : Time) (countLarge : Bool)
    (acc : MTUDiscovery × List Ptr) (p : Ptr) : MTUDiscovery × List Ptr :=
  let pkt := pm.heap p
  if pkt.probe then (acc.1.onProbeLost pkt.size, acc.2)
  else (if countLarge then acc.1.onDataLost now pkt.size else acc.1, acc.2 ++ [p])

def totalSize (pm : PacketManager) (ps : List Ptr) : Nat :=
  (ps.map fun p => (pm.heap p).size).sum

/-- The loss spans three PTOs with no ACK since the oldest went out. -/
def persistent (cc : CongestionController F) (oldest newest : Ptr) : Bool :=
  let first := (c.pm.heap oldest).sentTime
  cc.hasRttSample && (c.pm.heap newest).sentTime - first ≥ cc.persistentCongestionDuration &&
    match c.pm.ackBeforeLoss with
    | none => true
    | some ack => decide (ack < first)

def onPacketsLost (now : Time) (lost : List Ptr) : Connection F :=
  let (mtu, data) := lost.foldl (sortLost c.pm now (!c.ackedLarge)) (c.mtu, [])
  let c := { c with mtu := mtu }
  match data with
  | [] => c
  | oldest :: _ =>
    let cc := c.cc.onPacketLost now (totalSize c.pm data) c.pm.lastSentSeq
    let cc :=
      if c.persistent cc oldest (data.getLastD oldest) then cc.onPersistentCongestion else cc
    { c with cc := cc, lostQueue := c.lostQueue ++ data }.flushLost now

/-- Loss detection's result, handed on outside the manager's lock. -/
def reportLost (now : Time) (detected : PacketManager × List Ptr) : Connection F :=
  let c := { c with pm := detected.1 }
  if detected.2.length > 0 then c.onPacketsLost now detected.2 else c

def lossDelay : Int := Udx.lossDelay c.cc.smoothedRtt c.cc.latestRtt

def detectLostPackets (now : Time) : Connection F :=
  c.reportLost now (c.pm.detectLostLocked now c.lossDelay)

def onLossTimer (now : Time) : Connection F :=
  c.reportLost now (c.pm.onLossTimer now c.lossDelay)

def probePacket (seq : UInt32) (size : Nat) : Packet :=
  let header := (marshalPacket (c.packet seq 0 0 [.mtuProbe 1])).length - 1
  c.packet seq 0 0 [.mtuProbe ((size : Int) - header)]

omit [Float64 F] in
theorem length_probePacket_le (seq : UInt32) {size : Nat} (fits : size ≤ maxDatagramSize) :
    (marshalPacket (c.probePacket seq size)).length ≤ maxDatagramSize := by
  have here := c.localCID.bounded
  have there := c.remoteCID.bounded
  rw [maxCIDLength] at here there
  rw [maxDatagramSize] at fits ⊢
  simp only [probePacket, length_marshalPacket, packet, Packet.headerLen, Packet.framesLen,
    List.map_cons, List.map_nil, List.sum_cons, List.sum_nil, Frame.len, ConnectionID.len]
  repeat' split
  all_goals omega

def sendProbe (now : Time) (size : { size : Nat // size ≤ maxDatagramSize }) : Connection F :=
  let (pm, seq) := c.pm.nextSequence
  let c := { c with pm := pm }
  let pkt := c.probePacket seq size
  let c := c.track now seq
    { size := (marshalPacket pkt).length, frames := pkt.frames, probe := true
      fits := fun _ => c.length_probePacket_le seq size.property }
  c.put false pkt

def probeMTU (now : Time) : Connection F :=
  if !c.cc.hasRttSample then c
  else
    let (mtu, size) := c.mtu.nextProbe now
    let c := { c with mtu := mtu }
    if size.val = 0 then c else c.sendProbe now size

structure AckTally where
  mtu : MTUDiscovery
  bytes : Nat := 0
  largest : Option Ptr := none
  large : Bool := false

def tallyAcked (pm : PacketManager) (largestAcked : UInt32) (tally : AckTally) (p : Ptr) :
    AckTally :=
  let pkt := pm.heap p
  let tally :=
    if pkt.sequence = largestAcked then { tally with largest := some p } else tally
  if probe : pkt.probe then
    { tally with mtu := tally.mtu.onProbeAcked pkt.size (pkt.fits probe) }
  else
    let tally := { tally with bytes := tally.bytes + pkt.size }
    if pkt.size > safeDatagramSize then
      { tally with large := true, mtu := tally.mtu.onDataAcked pkt.size }
    else tally

def handleAckFrame (now : Time) (f : AckFrame) : Connection F :=
  let (pm, acked) := c.pm.handleAckFrame now f
  let c := { c with pm := pm }
  if acked.length > 0 then
    let tally := acked.foldl (tallyAcked c.pm f.largestAcked) { mtu := c.mtu }
    let sentTime := (tally.largest.map fun p => (c.pm.heap p).sentTime).getD 0
    let c := { c with
      mtu := tally.mtu
      ackedLarge := tally.large
      cc := c.cc.onPacketAcked now tally.bytes sentTime (f.ackDelay.toNat * millisecond)
        tally.largest.isSome f.largestAcked.toNat }
    ((c.detectLostPackets now).flushLost now).probeMTU now
  else c

/-- Builds the ACK for everything received and clears the pending count. -/
def takeAckLocked (now : Time) : Connection F × AckFrame :=
  let delay : UInt16 :=
    match c.largestArrival with
    | none => 0
    | some arrival =>
      let d := (now - arrival).tdiv millisecond
      if d > 0 then UInt16.ofNat (min d 65535).toNat else 0
  ({ c with ackPending := 0, ackTimer := none }, c.recvd.frame delay)

/-- A frame whose packet is acknowledged at once. -/
def edge : Frame → Bool
  | .stream f => f.isSyn || f.isFin
  | .ping | .mtuProbe _ => true
  | _ => false

/-- Records an acknowledged packet and acknowledges it now or later. -/
def noteReceived (now : Time) (pkt : Packet) : Connection F :=
  let (recvd, outOfOrder) := c.recvd.add pkt.sequence
  let c := { c with
    recvd := recvd
    largestArrival :=
      if !c.recvd.any || recvd.largest != c.recvd.largest then some now else c.largestArrival
    ackPending := c.ackPending + 1 }
  if outOfOrder || pkt.frames.any edge || c.ackPending ≥ ackElicitingThreshold then
    let (c, frame) := c.takeAckLocked now
    c.sendPacket now pkt.sourceStreamID pkt.destinationStreamID [.ack frame]
  else if c.ackTimer = none then
    let delay := min (max (c.cc.smoothedRtt.tdiv 4) minAckDelay) maxAckDelay
    { c with ackTimer := some ⟨now + delay, pkt.sourceStreamID, pkt.destinationStreamID⟩ }
  else c

/-- Flushes whatever is pending when the ACK timer elapses. -/
def ackTimerFired (now : Time) (srcStreamID dstStreamID : UInt32) : Connection F :=
  let c := { c with ackTimer := none }
  if c.ackPending = 0 then c
  else
    let (c, frame) := c.takeAckLocked now
    c.sendPacket now srcStreamID dstStreamID [.ack frame]

/-- Tears the connection down once, telling the peer if `announce`. -/
def closeInternal (now : Time) (code : UInt32) (reason : List UInt8) (announce : Bool) :
    Connection F :=
  if c.state = .closed then c
  else
    let c := { c with state := .closing, ackTimer := none, ackPending := 0 }
    let c := if announce then c.sendFrames now [.connectionClose ⟨code, 0, reason⟩] else c
    let streams := c.streams.entries.map Sigma.snd
    let c := { c with state := .closed }
    let c := streams.foldl (fun c s => c.setStream (s.deliverReset code)) c
    { c with lostTimer := none, lostQueue := [], cc := c.cc.destroy, pm := c.pm.destroy }

/-- Told the address a packet came from. An address other than the one the
connection sends to is challenged, unless it was within `pathChallengeRetry`;
returns the challenge to send there. `challenge` is what the random source gave. -/
def observeAddr (now : Time) (addr : Option Addr) (challenge : Option (Vector UInt8 8)) :
    Connection F × Option (Vector UInt8 8 × Addr) :=
  match addr with
  | none => (c, none)
  | some addr =>
    if addr = c.remoteAddr then (c, none)
    else if c.pendingAddr = some addr ∧ now - c.pendingSentAt < pathChallengeRetry then (c, none)
    else
      match challenge with
      | none => (c, none)
      | some challenge =>
        ({ c with
          pendingAddr := some addr, pendingChallenge := challenge, pendingSentAt := now },
          some (challenge, addr))

/-- Sends control frames to an address the connection has not moved to. -/
def sendControlTo (frames : List Frame) (addr : Addr) : Connection F :=
  let pkt := c.packet 0 0 0 frames
  { c with
    bytesSent := c.bytesSent + (marshalPacket pkt).length
    wire := ⟨pkt, addr, false⟩ :: c.wire }

/-- Moves the connection to the address its challenge went to, when `data`
answers that challenge. -/
def completeMigration (data : Vector UInt8 8) : Connection F × Bool :=
  match c.pendingAddr with
  | none => (c, false)
  | some addr =>
    if data ≠ c.pendingChallenge then (c, false)
    else ({ c with remoteAddr := addr, addrValidated := true, pendingAddr := none }, true)

/-- `InitiatePathMigration` up to its wait for the response. -/
def initiatePathMigration (now : Time) (challenge : Vector UInt8 8) : Connection F :=
  c.sendFrames now [.pathChallenge challenge]

/-- The rest of it: takes a response, and moves to `newAddr` if it is the answer;
none while there is no response. -/
def finishPathMigration (newAddr : Addr) (challenge : Vector UInt8 8) : Option (Connection F) :=
  match c.pathChallengeResp with
  | none => none
  | some resp =>
    let c := { c with pathChallengeResp := none }
    some (if resp ≠ challenge then c else { c with remoteAddr := newAddr, addrValidated := true })

/-- Applies an operation to the stream a control frame is for, and sends what
it returns. -/
def onStream (now : Time) (pkt : Packet) (op : Stream → Stream × List Frame) : Connection F :=
  match c.findStream pkt.destinationStreamID pkt.sourceStreamID with
  | none => c
  | some s => (c.setStream (op s).1).sendFor now (op s).1 (op s).2

def handleFrame (now : Time) (pkt : Packet) (c : Connection F) : Frame → Connection F
  | .stream f => c.handleStreamFrame now pkt f
  | .ack f => c.handleAckFrame now f
  | .windowUpdate wire => c.onStream now pkt fun s => (s.onWindowUpdate wire, [])
  | .maxData limit => { c with fc := c.fc.updateMaxData (wrap64 limit.toNat) }
  | .resetStream code => c.onStream now pkt fun s => (s.deliverReset code, [])
  | .connectionClose _ => c.closeInternal now errorNoError [] true
  | .pathChallenge data => c.sendFrames now [.pathResponse data]
  | .pathResponse data =>
    match c.completeMigration data with
    | (c, true) => c
    | (c, false) => { c with pathChallengeResp := c.pathChallengeResp <|> some data }
  | .maxStreams count =>
    if count.toNat > c.maxStreams then { c with maxStreams := count.toNat } else c
  | .stopSending _ code => c.onStream now pkt fun s => s.reset code
  | .dataBlocked _ => c.sendFrames now [.maxData (UInt64.ofInt c.fc.connMaxData)]
  | .streamDataBlocked _ _ => c.onStream now pkt fun s =>
    let (fc, limit) := s.streamFC.refreshLimit
    ({ s with streamFC := fc }, [.windowUpdate (UInt32.ofInt limit)])
  | .padding | .ping | .mtuProbe _ | .newConnectionID _ | .retireConnectionID _ => c

/-- Processes an incoming packet: every frame on arrival, then the
acknowledgment. -/
def handlePacket (now : Time) (pkt : Packet) : Connection F :=
  let size := if pkt.wireLen = 0 then (marshalPacket pkt).length else pkt.wireLen
  let c := { c with bytesReceived := c.bytesReceived + size, lastActivity := now }
  let c := pkt.frames.foldl (handleFrame now pkt) c
  if !isDataBearing pkt && !isNumberedProbe pkt then c else c.noteReceived now pkt

def idleTimeout : Int :=
  if 3 * c.cc.pto > maxIdleTimeout then 3 * c.cc.pto else maxIdleTimeout

def idleExpired (now : Time) : Bool :=
  if c.state = .closing ∨ c.state = .closed then false
  else now - c.lastActivity ≥ c.idleTimeout

/-- The watchdog's poll: a silent connection is closed without telling the
peer. -/
def onIdleCheck (now : Time) : Connection F :=
  if c.idleExpired now then c.closeInternal now errorConnectionTimeout [] false else c

def ping (now : Time) : Connection F := c.sendFrames now [.ping]

/-- What the congestion window grants of `[minSize, maxSize]`, or none while the
window or the pacer is closed. -/
def awaitSendCreditUpTo (now : Time) (minSize maxSize : Nat) : Option Nat :=
  if c.state = .closed then none
  else if c.cc.pacer.timeUntilSend now ≤ 0 ∧ c.cc.canSend minSize then
    let granted := min c.cc.available maxSize
    some (max granted minSize).toNat
  else none

/-- One batch of a `Write` with `data` to go, and how much of it went out.
`entering` says whether it is the call's first, which alone looks at whether the
stream is closed. -/
def writeBatch (now : Time) (id : UInt32) (entering : Bool) (data : List UInt8) :
    Option (Connection F × Nat) := do
  let s ← c.streams.lookup id
  if entering ∧ s.writeError.isSome then none
  else
    let ask ← s.writeAsk c.mtu.current data.length
    let granted ← c.awaitSendCreditUpTo now ask.first ask.want
    let (s, batch) ← s.writeCommit ask granted data.length
    return ((c.setStream s).sendStreamFrames now s.id s.remoteID (UInt64.ofNat batch.offset)
      (data.take batch.granted) ask.chunkSize batch.isSyn, batch.granted)

/-- A blocked writer's STREAM_DATA_BLOCKED. -/
def writeBlocked (now : Time) (id : UInt32) : Option (Connection F) := do
  let s ← c.streams.lookup id
  if s.writeError.isSome ∨ s.streamFC.canSend 1 then none
  else return c.sendFor now s [.streamDataBlocked s.id (UInt64.ofInt s.streamFC.maxStreamData)]

def read (now : Time) (id : UInt32) (size : Nat) (expired : Bool) :
    Option (Connection F × ReadResult) := do
  let s ← c.streams.lookup id
  let (s, result, out) := s.read size expired
  return ((c.setStream s).sendFor now s out, result)

/-- Applies a lifecycle call of the application. -/
def callStream (now : Time) (id : UInt32) (op : Stream → Stream × List Frame) :
    Option (Connection F) := do
  let s ← c.streams.lookup id
  return (c.setStream (op s).1).sendFor now (op s).1 (op s).2

def closeStream (now : Time) (id : UInt32) : Option (Connection F) :=
  c.callStream now id Stream.close

def resetStream (now : Time) (id : UInt32) (code : UInt32) : Option (Connection F) :=
  c.callStream now id fun s => s.reset code

end Connection

end Udx

import Udx.Custody

set_option autoImplicit false

namespace Udx

open Flight (Move Moves)

/-- The address a connection sends to, what it waits for before it moves to
another, and what came from there. -/
structure Connection.Path where
  remoteAddr : Addr
  addrValidated : Bool
  pathChallengeResp : Option (Vector UInt8 8)
  pendingAddr : Option Addr
  pendingChallenge : Vector UInt8 8
  bytesReceived : Nat

/-- What a connection knows of its peer, its streams and the peer's packets.
Sending, re-sending and loss detection leave it alone. -/
structure Connection.Endpoint where
  localCID : ConnectionID
  remoteCID : ConnectionID
  path : Connection.Path
  state : ConnectionState
  streams : AList (fun _ : UInt32 => Stream)
  nextStreamID : UInt32
  maxStreams : Nat
  incomingStreams : List UInt32
  recvd : RecvTracker
  ackPending : Nat
  ackTimer : Option AckTimer

/-- A frame that is handed to a stream, which the IDs of its packet select. -/
def Frame.directed : Frame → Bool
  | .stream _ | .windowUpdate _ | .resetStream _ | .stopSending _ _ | .streamDataBlocked _ _ => true
  | _ => false

/-- A packet for a stream has known IDs: those of its sender's stream. -/
def Packet.Addressed (known : UInt32 × UInt32 → Prop) (pkt : Packet) : Prop :=
  pkt.frames.any Frame.directed = true → known (pkt.sourceStreamID, pkt.destinationStreamID)

def Cargo.Addressed (known : UInt32 × UInt32 → Prop) (x : Cargo) : Prop :=
  x.frames.any Frame.directed = true → known (x.sourceStreamID, x.destinationStreamID)

/-- What the flight of a running step adds to the connection: the packets in
hand, the bytes owed and how far the streams' data has gone out. -/
structure Connection.Ghost where
  hand : List Ptr := []
  debt : Int := 0
  extent : UInt32 → Nat

namespace Connection

variable {F : Type}

def path (c : Connection F) : Path :=
  ⟨c.remoteAddr, c.addrValidated, c.pathChallengeResp, c.pendingAddr, c.pendingChallenge,
    c.bytesReceived⟩

def endpoint (c : Connection F) : Endpoint :=
  ⟨c.localCID, c.remoteCID, c.path, c.state, c.streams, c.nextStreamID, c.maxStreams,
    c.incomingStreams, c.recvd, c.ackPending, c.ackTimer⟩

def flight (c : Connection F) (g : Ghost) : Flight :=
  { next := c.pm.nextSeq
    tracked := ↑c.pm.tracked
    waiting := ↑((c.lostQueue ++ g.hand).map c.pm.cargo)
    extent := g.extent
    wire := c.wire.map Datagram.packet
    inflight := c.cc.inflight
    debt := g.debt }

def Custody (c : Connection F) (g : Ghost) : Prop := c.pm.Custody (c.lostQueue ++ g.hand)

def wireBytes (sent : List Datagram) : Nat :=
  (sent.map fun d => (marshalPacket d.packet).length).sum

/-- Datagrams the connection can have handed over since, the last first: they
go to the peer's address, and each one that was checked against the
anti-amplification limit was within it. -/
inductive Handed (c : Connection F) : List Datagram → Prop
  | nil : Handed c []
  | cons {d : Datagram} {sent : List Datagram} (earlier : Handed c sent)
    (addr : d.addr = c.remoteAddr)
    (within : d.checked = true → c.addrValidated = false →
      c.bytesSent + wireBytes (d :: sent) ≤ c.bytesReceived * amplificationFactor) :
    Handed c (d :: sent)

/-- The datagram is the packet as it was last sent. -/
def Shows (pkt : SentPacket) (d : Datagram) : Prop :=
  d.packet.sequence = pkt.sequence ∧ d.packet.frames = pkt.frames ∧
    (marshalPacket d.packet).length = pkt.size

/-- Every path-MTU probe that `b` tracks was tracked by `a` or is among `sent`. -/
def ProbesSent (a b : PacketManager) (sent : List Datagram) : Prop :=
  ∀ e ∈ b.sentPackets.entries, (b.heap e.2).probe = true →
    a.TracksAs e (b.heap e.2) ∨ ∃ d ∈ sent, Shows (b.heap e.2) d

/-- If every packet of `a` that is for a stream goes out under known stream IDs,
and `labels` are known, so does every packet of `b` and of `sent`. -/
def Labelled (labels : List (UInt32 × UInt32)) (a b : PacketManager) (sent : List Datagram) :
    Prop :=
  ∀ known : UInt32 × UInt32 → Prop, (∀ label ∈ labels, known label) →
    (∀ p, (a.cargo p).Addressed known) →
    (∀ p, (b.cargo p).Addressed known) ∧ ∀ d ∈ sent, d.packet.Addressed known

/-- The streams and the reception record stay as they are; numbers are only
ever allocated; what is handed over is counted, and every new probe is among
it; new packets for streams go out under `labels`. -/
structure Keeps (labels : List (UInt32 × UInt32)) (c c' : Connection F) : Prop where
  endpoint : c'.endpoint = c.endpoint
  numbers : c.pm.Numbers c'.pm
  sent : ∃ sent, c.Handed sent ∧ c'.wire = sent ++ c.wire ∧
    c'.bytesSent = c.bytesSent + wireBytes sent ∧ ProbesSent c.pm c'.pm sent ∧
    Labelled labels c.pm c'.pm sent

/-- Sending and re-sending neither begins nor ends a recovery, and changes the
datagram size only to fall back. -/
structure Sends (labels : List (UInt32 × UInt32)) (c c' : Connection F) : Prop
    extends Keeps labels c c' where
  inRecovery : c'.cc.inRecovery = c.cc.inRecovery
  recoveryEndSeq : c'.cc.recoveryEndSeq = c.cc.recoveryEndSeq
  size : c.mtu.Falls c'.mtu

/-- The connection's flight moves, as long as numbers do not repeat. -/
def Simulated (r : Flight.Rules) (c : Connection F) (g : Ghost) (c' : Connection F)
    (g' : Ghost) : Prop :=
  c'.pm.nextSeq ≤ 2 ^ 32 → c.Custody g → c'.Custody g' ∧ Moves r (c.flight g) (c'.flight g')

variable {r : Flight.Rules} {a b c : Connection F} {g g' g'' : Ghost}
    {labels : List (UInt32 × UInt32)}

theorem wireBytes_append (later earlier : List Datagram) :
    wireBytes (later ++ earlier) = wireBytes later + wireBytes earlier := by
  rw [wireBytes, List.map_append, List.sum_append, wireBytes, wireBytes]

theorem Handed.append {sent later : List Datagram} (first : a.Handed sent) (second : b.Handed later)
    (path : b.path = a.path) (bytes : b.bytesSent = a.bytesSent + wireBytes sent) :
    a.Handed (later ++ sent) := by
  have addr : b.remoteAddr = a.remoteAddr := congrArg Path.remoteAddr path
  have validated : b.addrValidated = a.addrValidated := congrArg Path.addrValidated path
  have received : b.bytesReceived = a.bytesReceived := congrArg Path.bytesReceived path
  induction second with
  | nil => exact first
  | @cons d later earlier there within ih =>
    refine .cons ih (there.trans addr) fun checked unvalidated => ?_
    have := within checked (validated.trans unvalidated)
    rw [received, bytes] at this
    have whole := wireBytes_append (d :: later) sent
    rw [List.cons_append] at whole
    show a.bytesSent + wireBytes (d :: (later ++ sent)) ≤ _
    omega

theorem Handed.addr_eq {sent : List Datagram} (handed : c.Handed sent) :
    ∀ d ∈ sent, d.addr = c.remoteAddr := by
  induction handed with
  | nil => exact fun _ member => absurd member List.not_mem_nil
  | cons _ addr _ ih => exact List.forall_mem_cons.mpr ⟨addr, ih⟩

theorem ProbesSent.of_old {a b : PacketManager} (old : a.OldProbes b) (sent : List Datagram) :
    ProbesSent a b sent :=
  fun e member probe => .inl (old e member probe)

theorem ProbesSent.append {a b c : PacketManager} {sent later : List Datagram}
    (first : ProbesSent a b sent) (second : ProbesSent b c later) :
    ProbesSent a c (later ++ sent) := by
  intro e member probe
  rcases second e member probe with ⟨old, cargo, sequence⟩ | ⟨d, new, shows⟩
  · rw [cargo] at probe
    rcases first e old probe with ⟨older, cargo', sequence'⟩ | ⟨d, new, shows⟩
    · exact .inl ⟨older, cargo.trans cargo', sequence.trans sequence'⟩
    · refine .inr ⟨d, List.mem_append_right _ new, ?_⟩
      rw [Shows, sequence, cargo]
      exact shows
  · exact .inr ⟨d, List.mem_append_left _ new, shows⟩

theorem Labelled.of_cargo {a b : PacketManager} (cargo : b.cargo = a.cargo) :
    Labelled labels a b [] :=
  fun _ _ held => ⟨cargo ▸ held, fun _ member => absurd member List.not_mem_nil⟩

theorem Labelled.append {a b c : PacketManager} {sent later : List Datagram}
    (first : Labelled labels a b sent) (second : Labelled labels b c later) :
    Labelled labels a c (later ++ sent) := by
  intro known listed held
  obtain ⟨middle, early⟩ := first known listed held
  obtain ⟨last, late⟩ := second known listed middle
  exact ⟨last, List.forall_mem_append.mpr ⟨late, early⟩⟩

theorem Keeps.next (keeps : Keeps labels a b) : a.pm.nextSeq ≤ b.pm.nextSeq := keeps.numbers.next

theorem Sends.next (sends : Sends labels a b) : a.pm.nextSeq ≤ b.pm.nextSeq := sends.numbers.next

theorem Keeps.quiet (endpoint : b.endpoint = a.endpoint) (pm : b.pm = a.pm)
    (wire : b.wire = a.wire) (bytes : b.bytesSent = a.bytesSent) : Keeps labels a b :=
  ⟨endpoint, pm ▸ .refl, [], .nil, wire, bytes, pm ▸ .of_old .refl _,
    .of_cargo (congrArg PacketManager.cargo pm)⟩

theorem Keeps.manage {pm : PacketManager} (numbers : c.pm.Numbers pm)
    (old : c.pm.OldProbes pm) (cargo : pm.cargo = c.pm.cargo) :
    Keeps labels c { c with pm := pm } :=
  ⟨rfl, numbers, [], .nil, rfl, rfl, .of_old old _, .of_cargo cargo⟩

theorem Keeps.trans (first : Keeps labels a b) (second : Keeps labels b c) : Keeps labels a c := by
  obtain ⟨sent, handed, wire, bytes, probes, labelled⟩ := first.sent
  obtain ⟨later, handed', wire', bytes', probes', labelled'⟩ := second.sent
  refine ⟨second.endpoint.trans first.endpoint, first.numbers.trans second.numbers,
    later ++ sent, handed.append handed' (congrArg Endpoint.path first.endpoint) bytes, ?_, ?_,
    probes.append probes', labelled.append labelled'⟩
  · rw [wire', wire, List.append_assoc]
  · rw [bytes', bytes, wireBytes_append]
    omega

theorem Keeps.mono {labels' : List (UInt32 × UInt32)} (keeps : Keeps labels a b)
    (more : labels ⊆ labels') : Keeps labels' a b := by
  obtain ⟨sent, handed, wire, bytes, probes, labelled⟩ := keeps.sent
  exact ⟨keeps.endpoint, keeps.numbers, sent, handed, wire, bytes, probes,
    fun known listed => labelled known fun label member => listed label (more member)⟩

theorem Sends.quiet (endpoint : b.endpoint = a.endpoint) (pm : b.pm = a.pm)
    (wire : b.wire = a.wire) (bytes : b.bytesSent = a.bytesSent)
    (inRecovery : b.cc.inRecovery = a.cc.inRecovery)
    (recoveryEndSeq : b.cc.recoveryEndSeq = a.cc.recoveryEndSeq)
    (size : b.mtu.current = a.mtu.current) : Sends labels a b :=
  ⟨.quiet endpoint pm wire bytes, inRecovery, recoveryEndSeq, .inl size⟩

theorem Sends.manage {pm : PacketManager} (numbers : c.pm.Numbers pm)
    (old : c.pm.OldProbes pm) (cargo : pm.cargo = c.pm.cargo) :
    Sends labels c { c with pm := pm } :=
  ⟨.manage numbers old cargo, rfl, rfl, .inl rfl⟩

theorem Sends.refl : Sends labels c c := .quiet rfl rfl rfl rfl rfl rfl rfl

theorem Sends.trans (first : Sends labels a b) (second : Sends labels b c) : Sends labels a c :=
  ⟨first.toKeeps.trans second.toKeeps, second.inRecovery.trans first.inRecovery,
    second.recoveryEndSeq.trans first.recoveryEndSeq, first.size.trans second.size⟩

theorem Sends.foldl {α : Type} {step : Connection F → α → Connection F}
    (each : ∀ c x, Sends labels c (step c x)) (xs : List α) : Sends labels c (xs.foldl step c) := by
  induction xs generalizing c with
  | nil => exact .refl
  | cons x rest ih => exact (each c x).trans ih

theorem Sends.relabel (sends : Sends labels a b)
    (held : ∀ label ∈ labels, ∃ p, (a.pm.cargo p).frames.any Frame.directed = true ∧
      label = ((a.pm.cargo p).sourceStreamID, (a.pm.cargo p).destinationStreamID)) :
    Sends [] a b := by
  obtain ⟨sent, handed, wire, bytes, probes, labelled⟩ := sends.sent
  refine ⟨⟨sends.endpoint, sends.numbers, sent, handed, wire, bytes, probes, fun known _ old => ?_⟩,
    sends.inRecovery, sends.recoveryEndSeq, sends.size⟩
  refine labelled known (fun label member => ?_) old
  obtain ⟨p, directed, rfl⟩ := held label member
  exact old p directed

theorem Simulated.refl : Simulated r c g c g := fun _ custody => ⟨custody, .refl⟩

theorem Simulated.trans (first : Simulated r a g b g') (next : b.pm.nextSeq ≤ c.pm.nextSeq)
    (second : Simulated r b g' c g'') : Simulated r a g c g'' := fun room custody => by
  obtain ⟨middle, before⟩ := first (Nat.le_trans next room) custody
  obtain ⟨last, after⟩ := second room middle
  exact ⟨last, before.trans after⟩

/-- The second step may use what the first has established. -/
theorem Simulated.andThen {Post : Prop}
    (first : b.pm.nextSeq ≤ 2 ^ 32 → a.Custody g →
      (b.Custody g' ∧ Moves r (a.flight g) (b.flight g')) ∧ Post)
    (next : b.pm.nextSeq ≤ c.pm.nextSeq) (second : Post → Simulated r b g' c g'') :
    Simulated r a g c g'' := fun room custody => by
  obtain ⟨⟨middle, before⟩, post⟩ := first (Nat.le_trans next room) custody
  obtain ⟨last, after⟩ := second post room middle
  exact ⟨last, before.trans after⟩

theorem Simulated.aside (pm : b.pm = a.pm) (queue : b.lostQueue = a.lostQueue)
    (wire : b.wire = a.wire) (inflight : b.cc.inflight = a.cc.inflight) :
    Simulated r a g b g := fun _ custody => by
  have flight : b.flight g = a.flight g := by
    simp only [Connection.flight, pm, queue, wire, inflight]
  rw [flight, Custody, pm, queue]
  exact ⟨custody, .refl⟩

theorem Simulated.asideManager (table : b.pm.sentPackets = a.pm.sentPackets)
    (heap : b.pm.heap = a.pm.heap) (next : b.pm.nextSeq = a.pm.nextSeq)
    (ptr : b.pm.nextPtr = a.pm.nextPtr) (queue : b.lostQueue = a.lostQueue)
    (wire : b.wire = a.wire) (inflight : b.cc.inflight = a.cc.inflight) :
    Simulated r a g b g := fun _ custody => by
  have cargo : b.pm.cargo = a.pm.cargo := by
    funext p
    rw [PacketManager.cargo, heap]
    rfl
  have flight : b.flight g = a.flight g := by
    simp only [Connection.flight, PacketManager.tracked, table, cargo, next, queue, wire, inflight]
  rw [flight, Custody, queue]
  exact ⟨PacketManager.Custody.congr custody table (fun p _ => congrFun heap p) next.ge ptr.ge,
    .refl⟩

theorem Simulated.move (pm : b.pm = a.pm) (queue : b.lostQueue = a.lostQueue)
    (hand : g'.hand = g.hand) (move : a.Custody g → Move r (a.flight g) (b.flight g')) :
    Simulated r a g b g' := fun _ custody => by
  refine ⟨?_, .single (move custody)⟩
  rw [Custody, pm, queue, hand]
  exact custody

theorem Simulated.book (bytes : Nat) (pm : b.pm = a.pm) (queue : b.lostQueue = a.lostQueue)
    (wire : b.wire = a.wire) (inflight : b.cc.inflight = a.cc.inflight + bytes) :
    Simulated r a g b { g with debt := g.debt + bytes } :=
  .move pm queue rfl fun _ => by
    have moved : b.flight { g with debt := g.debt + bytes } =
        { a.flight g with inflight := a.cc.inflight + bytes, debt := g.debt + bytes } := by
      rw [flight, pm, queue, wire, inflight]
      rfl
    rw [moved]
    exact .book (a.flight g) bytes

theorem Simulated.land {bytes : Nat} (owed : bytes ≤ g.debt) (pm : b.pm = a.pm)
    (queue : b.lostQueue = a.lostQueue) (wire : b.wire = a.wire)
    (inflight : b.cc.inflight = (a.cc.land bytes).inflight) :
    Simulated r a g b { g with debt := g.debt - bytes } :=
  .move pm queue rfl fun _ => by
    have moved : b.flight { g with debt := g.debt - bytes } =
        { a.flight g with inflight := (a.cc.land bytes).inflight, debt := g.debt - bytes } := by
      rw [flight, pm, queue, wire, inflight]
      rfl
    rw [moved]
    exact .land (a.flight g) bytes owed

/-- The cargo of a data packet sent now. -/
def dataCargo (c : Connection F) (dstStreamID srcStreamID : UInt32) (frames : List Frame) :
    Cargo :=
  { size := (marshalPacket
      (c.packet (UInt32.ofNat c.pm.nextSeq) dstStreamID srcStreamID frames)).length
    frames := frames, destinationStreamID := dstStreamID, sourceStreamID := srcStreamID }

def frameSize (c : Connection F) (dstStreamID srcStreamID : UInt32) (frame : StreamFrame) : Nat :=
  (marshalPacket (c.packet 0 dstStreamID srcStreamID [.stream frame])).length

theorem dataCargo_stream (c : Connection F) (dstStreamID srcStreamID : UInt32)
    (frame : StreamFrame) :
    c.dataCargo dstStreamID srcStreamID [.stream frame] =
      { size := c.frameSize dstStreamID srcStreamID frame, frames := [.stream frame]
        destinationStreamID := dstStreamID, sourceStreamID := srcStreamID } := by
  have same : (marshalPacket (c.packet (UInt32.ofNat c.pm.nextSeq) dstStreamID srcStreamID
      [.stream frame])).length = c.frameSize dstStreamID srcStreamID frame := by
    rw [frameSize, length_marshalPacket, length_marshalPacket]
    rfl
  simp only [dataCargo, same]

theorem frameSize_congr (endpoint : b.endpoint = a.endpoint) : b.frameSize = a.frameSize := by
  funext dst src frame
  have remote : b.remoteCID = a.remoteCID := congrArg Endpoint.remoteCID endpoint
  have here : b.localCID = a.localCID := congrArg Endpoint.localCID endpoint
  rw [Connection.frameSize, Connection.frameSize, packet, packet, remote, here]

section Sending

theorem sends_put {checked : Bool} (pkt : Packet)
    (within : checked = true → c.limited (marshalPacket pkt).length = false)
    (labelled : ∀ known, (∀ label ∈ labels, known label) →
      (∀ p, (c.pm.cargo p).Addressed known) → pkt.Addressed known) :
    Sends labels c (c.put checked pkt) := by
  refine ⟨⟨rfl, .refl, [⟨pkt, c.remoteAddr, checked⟩],
    .cons .nil rfl fun consulted unvalidated => ?_, rfl, rfl, .of_old .refl _,
    fun known listed held => ⟨held, ?_⟩⟩, rfl, rfl, .inl rfl⟩
  · simpa [limited, wireBytes, unvalidated] using within consulted
  · exact List.forall_mem_singleton.mpr (labelled known listed held)

theorem simulated_emit {checked : Bool} {pkt : Packet} {x : Cargo}
    (present : (pkt.sequence, x) ∈ c.pm.tracked) (carries : x.Carries pkt) :
    Simulated r c g (c.put checked pkt) g :=
  .move rfl rfl rfl fun _ => .emit _ pkt x (Multiset.mem_coe.mpr present) carries

theorem simulated_control {checked : Bool} {pkt : Packet} (allowed : r.controls pkt) :
    Simulated r c g (c.put checked pkt) g :=
  .move rfl rfl rfl fun _ => .control _ pkt allowed

variable (now : Time) (dstStreamID srcStreamID : UInt32)

/-- The packets for a stream among `frames` have their IDs in `labels`. -/
def Listed (labels : List (UInt32 × UInt32)) (dstStreamID srcStreamID : UInt32)
    (frames : List Frame) : Prop :=
  frames.any Frame.directed = true → (srcStreamID, dstStreamID) ∈ labels

theorem sends_registerData (frames : List Frame)
    (listed : Listed labels dstStreamID srcStreamID frames) :
    Sends labels c (c.registerData now dstStreamID srcStreamID frames).1 := by
  refine ⟨⟨rfl, .send rfl (c.pm.lastSentSeq_track now _), [], .nil, rfl, rfl, .of_old (.track rfl) _,
    fun known all held => ⟨fun p => ?_, fun _ member => absurd member List.not_mem_nil⟩⟩,
    rfl, rfl, .inl rfl⟩
  simp only [registerData, track, PacketManager.nextSequence, PacketManager.cargo_sendPacket]
  rcases PacketManager.cargo_new_cases _ _ p with fresh | old
  · rw [fresh]
    exact fun directed => all _ (listed directed)
  · rw [old]
    exact held p

theorem track_spec {now : Time} {x : Cargo} (queue : b.lostQueue = a.lostQueue)
    (wire : b.wire = a.wire)
    (pm : b.pm = ({ a.pm with nextSeq := a.pm.nextSeq + 1 }.new
      { toCargo := x, sequence := UInt32.ofNat a.pm.nextSeq }).1.sendPacket now a.pm.nextPtr)
    (room : b.pm.nextSeq ≤ 2 ^ 32) (custody : a.Custody g) (extent : UInt32 → Nat) :
    let g' := { g with extent := extent }
    b.Custody g' ∧ b.pm.tracked = (UInt32.ofNat a.pm.nextSeq, x) :: a.pm.tracked ∧
      b.flight g' =
        { (a.flight g).number x with extent := extent, inflight := b.cc.inflight } := by
  intro g'
  have next : b.pm.nextSeq = a.pm.nextSeq + 1 := by rw [pm]; rfl
  obtain ⟨kept, tracked, waiting⟩ := PacketManager.Custody.sendPacket_new custody now _
    (by omega) rfl rfl b.pm pm
  refine ⟨?_, tracked, ?_⟩
  · rw [Custody, queue]
    exact kept
  · rw [flight, tracked, queue, waiting, next, wire]
    rfl

theorem registerData_spec (frames : List Frame)
    (allowed : r.sends g.extent (c.dataCargo dstStreamID srcStreamID frames))
    {after : Connection F} {pkt : Packet}
    (registered : c.registerData now dstStreamID srcStreamID frames = (after, pkt))
    (room : after.pm.nextSeq ≤ 2 ^ 32) (custody : c.Custody g) :
    let x := c.dataCargo dstStreamID srcStreamID frames
    let g' := { g with extent := x.advance g.extent }
    (after.Custody g' ∧ Moves r (c.flight g) (after.flight g')) ∧
      after.pm.tracked = (pkt.sequence, x) :: c.pm.tracked ∧ x.Carries pkt := by
  intro x g'
  have inflight : after.cc.inflight = c.cc.inflight + x.size :=
    (congrArg (fun out => out.1.cc.inflight) registered).symm
  have sent : pkt = c.packet (UInt32.ofNat c.pm.nextSeq) dstStreamID srcStreamID frames :=
    (congrArg Prod.snd registered).symm
  obtain ⟨kept, tracked, flight⟩ := track_spec (x := x)
    (congrArg (fun out => out.1.lostQueue) registered).symm
    (congrArg (fun out => out.1.wire) registered).symm
    (congrArg (fun out => out.1.pm) registered).symm room custody (x.advance g.extent)
  refine ⟨⟨kept, ?_⟩, sent ▸ tracked, sent ▸ ⟨rfl, rfl, rfl⟩⟩
  rw [flight, inflight]
  exact Moves.register _ x rfl allowed

theorem sends_sendPacket (frames : List Frame)
    (listed : Listed labels dstStreamID srcStreamID frames) :
    Sends labels c (c.sendPacket now dstStreamID srcStreamID frames) := by
  unfold sendPacket
  dsimp only
  split <;> split
  · exact sends_registerData now dstStreamID srcStreamID frames listed
  · rename_i free
    exact (sends_registerData now dstStreamID srcStreamID frames listed).trans
      (sends_put _ (fun _ => eq_false_of_ne_true free) fun _ all _ directed =>
        all _ (listed directed))
  · exact .refl
  · rename_i free
    exact sends_put _ (fun _ => eq_false_of_ne_true free) fun _ all _ directed =>
      all _ (listed directed)

theorem simulated_sendPacket_data {frames : List Frame} (bears : frames.any Frame.bearsData = true)
    (allowed : r.sends g.extent (c.dataCargo dstStreamID srcStreamID frames)) :
    Simulated r c g (c.sendPacket now dstStreamID srcStreamID frames)
      { g with extent := (c.dataCargo dstStreamID srcStreamID frames).advance g.extent } := by
  rcases registered : c.registerData now dstStreamID srcStreamID frames with ⟨after, pkt⟩
  simp only [sendPacket, bears, if_true, registered]
  have first := registerData_spec now dstStreamID srcStreamID frames allowed registered
  split
  · exact .andThen first (Nat.le_refl _) fun _ => .refl
  · exact .andThen first (Nat.le_refl _) fun sent =>
      simulated_emit (sent.1 ▸ List.mem_cons_self) sent.2

theorem simulated_sendPacket_control {frames : List Frame}
    (bears : frames.any Frame.bearsData = false)
    (allowed : r.controls (c.packet 0 dstStreamID srcStreamID frames)) :
    Simulated r c g (c.sendPacket now dstStreamID srcStreamID frames) g := by
  simp only [sendPacket, bears, Bool.false_eq_true, if_false]
  split
  · exact .refl
  · exact simulated_control allowed

/-- Every packet shows a tracked cargo under its number. -/
def Shown (c : Connection F) (pkts : List Packet) : Prop :=
  ∀ pkt ∈ pkts, ∃ x, (pkt.sequence, x) ∈ c.pm.tracked ∧ x.Carries pkt

theorem writeDatagrams_append (first second : List Packet) :
    c.writeDatagrams (first ++ second) = (c.writeDatagrams first).writeDatagrams second := by
  simp [writeDatagrams]

theorem simulated_writeDatagrams {pkts : List Packet} (shown : c.Shown pkts) :
    Simulated r c g (c.writeDatagrams pkts) g := by
  induction pkts generalizing c with
  | nil => exact .aside rfl rfl rfl rfl
  | cons pkt rest ih =>
    obtain ⟨x, present, carries⟩ := shown pkt List.mem_cons_self
    have first : Simulated r c g (c.writeDatagrams [pkt]) g :=
      .move rfl rfl rfl fun _ => .emit _ pkt x (Multiset.mem_coe.mpr present) carries
    have later : Simulated r (c.writeDatagrams [pkt]) g
        ((c.writeDatagrams [pkt]).writeDatagrams rest) g :=
      ih fun pkt member => shown pkt (List.mem_cons_of_mem _ member)
    rw [← List.singleton_append, writeDatagrams_append]
    exact first.trans (Nat.le_refl _) later

/-- The frames may go out one after the other in packets of their own, of these
sizes. -/
def Sendable (r : Flight.Rules) (dstStreamID srcStreamID : UInt32) (size : StreamFrame → Nat) :
    (UInt32 → Nat) → List StreamFrame → Prop
  | _, [] => True
  | extent, frame :: rest =>
    r.sends extent
      { size := size frame, frames := [.stream frame], destinationStreamID := dstStreamID
        sourceStreamID := srcStreamID } ∧
      Sendable r dstStreamID srcStreamID size
        (Function.update extent srcStreamID (frame.offset.toNat + frame.data.length)) rest

/-- How far the streams reach once the frames are out. -/
def reach (srcStreamID : UInt32) (extent : UInt32 → Nat) (frames : List StreamFrame) :
    UInt32 → Nat :=
  frames.foldl (fun extent frame =>
    Function.update extent srcStreamID (frame.offset.toNat + frame.data.length)) extent

theorem sends_sendFor (s : Stream) (frames : List Frame) :
    Sends [s.ids] c (c.sendFor now s frames) :=
  .foldl (fun _ frame => sends_sendPacket now s.remoteID s.id [frame] fun _ =>
    List.mem_singleton_self _) frames

theorem simulated_sendFor_control (s : Stream) {frames : List Frame}
    (control : ∀ frame ∈ frames, frame.bearsData = false ∧ ∀ c' : Connection F,
      c'.endpoint = c.endpoint → r.controls (c'.packet 0 s.remoteID s.id [frame])) :
    Simulated r c g (c.sendFor now s frames) g := by
  unfold sendFor
  induction frames generalizing c with
  | nil => exact .refl
  | cons frame rest ih =>
    obtain ⟨bears, allowed⟩ := control frame List.mem_cons_self
    have first : Simulated r c g (c.sendPacket now s.remoteID s.id [frame]) g :=
      simulated_sendPacket_control now s.remoteID s.id (by simp [bears]) (allowed c rfl)
    have keeps : Sends [s.ids] c (c.sendPacket now s.remoteID s.id [frame]) :=
      sends_sendPacket now s.remoteID s.id [frame] fun _ => List.mem_singleton_self _
    refine first.trans (sends_sendFor now s rest).next (ih fun frame member => ?_)
    obtain ⟨bears, allowed⟩ := control frame (List.mem_cons_of_mem _ member)
    exact ⟨bears, fun c' same => allowed c' (same.trans keeps.endpoint)⟩

variable [Float64 F]

/-- A packet of a batch is counted when it is prepared and handed over later. -/
theorem sends_prepareDataPacket (frames : List Frame)
    (listed : Listed labels dstStreamID srcStreamID frames) :
    Sends labels c ((c.prepareDataPacket now dstStreamID srcStreamID frames).1.writeDatagrams
      (c.prepareDataPacket now dstStreamID srcStreamID frames).2.toList) := by
  rcases registered : c.registerData now dstStreamID srcStreamID frames with ⟨after, pkt⟩
  let size := (marshalPacket pkt).length
  let paced : Connection F :=
    { after with cc := { after.cc with pacer := after.cc.pacer.onPacketSent now size } }
  have booked : Sends labels c after := by
    have := sends_registerData (c := c) now dstStreamID srcStreamID frames listed
    rwa [registered] at this
  have sent : pkt = c.packet (UInt32.ofNat c.pm.nextSeq) dstStreamID srcStreamID frames :=
    (congrArg Prod.snd registered).symm
  have paces : Sends labels c paced := booked.trans (.quiet rfl rfl rfl rfl rfl rfl rfl)
  simp only [prepareDataPacket, registered]
  split
  · exact paces.trans (.quiet rfl rfl rfl rfl rfl rfl rfl)
  · rename_i free
    refine paces.trans (sends_put pkt (fun _ => eq_false_of_ne_true free) fun _ all _ => ?_)
    rw [sent]
    exact fun directed => all _ (listed directed)

theorem prepareDataPacket_spec (frame : StreamFrame)
    (allowed : r.sends g.extent (c.dataCargo dstStreamID srcStreamID [.stream frame]))
    {after : Connection F} {out : Option Packet}
    (prepared : c.prepareDataPacket now dstStreamID srcStreamID [.stream frame] = (after, out))
    (room : after.pm.nextSeq ≤ 2 ^ 32) (custody : c.Custody g) :
    let g' := { g with
      extent := Function.update g.extent srcStreamID (frame.offset.toNat + frame.data.length) }
    (after.Custody g' ∧ Moves r (c.flight g) (after.flight g')) ∧
      c.pm.tracked ⊆ after.pm.tracked ∧ after.Shown out.toList := by
  intro g'
  rcases registered : c.registerData now dstStreamID srcStreamID [.stream frame] with ⟨mid, pkt⟩
  have spec := registerData_spec now dstStreamID srcStreamID [.stream frame] allowed registered
  simp only [prepareDataPacket, registered] at prepared
  have pm : after.pm = mid.pm := by
    split at prepared <;> exact (congrArg (fun out => out.1.pm) prepared).symm
  have shape : after.lostQueue = mid.lostQueue ∧ after.wire = mid.wire ∧
      after.cc.inflight = mid.cc.inflight := by
    split at prepared <;> obtain ⟨rfl, -⟩ := Prod.mk.inj prepared <;> exact ⟨rfl, rfl, rfl⟩
  obtain ⟨⟨kept, moves⟩, tracked, carries⟩ := spec (pm ▸ room) custody
  obtain ⟨kept, aside⟩ := Simulated.aside (r := r) (g := g') pm shape.1 shape.2.1 shape.2.2 room kept
  refine ⟨⟨kept, moves.trans aside⟩, ?_, ?_⟩
  · rw [pm, tracked]
    exact List.subset_cons_self _ _
  · intro sent member
    have same : sent = pkt := by
      split at prepared <;> obtain ⟨-, rfl⟩ := Prod.mk.inj prepared
      · cases member
      · exact List.mem_singleton.mp member
    exact ⟨_, by rw [pm, tracked, same]; exact List.mem_cons_self, same ▸ carries⟩

/-- One frame's part in `sendStreamFrames`. -/
def batch (acc : Connection F × List Packet) (frame : StreamFrame) :
    Connection F × List Packet :=
  let out := acc.1.prepareDataPacket now dstStreamID srcStreamID [.stream frame]
  (out.1, acc.2 ++ out.2.toList)

theorem sendStreamFrames_eq (c : Connection F) (offset : UInt64) (data : List UInt8)
    (chunkSize : Nat) (isSyn : Bool) :
    c.sendStreamFrames now srcStreamID dstStreamID offset data chunkSize isSyn =
      let out := (streamFrames false offset isSyn (Chunks.chunks chunkSize data)).foldl
        (batch now dstStreamID srcStreamID) (c, [])
      out.1.writeDatagrams out.2 := rfl

/-- What is prepared already can be handed over first. -/
theorem prepareDataPacket_writeDatagrams (pkts : List Packet) (frames : List Frame) :
    (c.writeDatagrams pkts).prepareDataPacket now dstStreamID srcStreamID frames =
      ((c.prepareDataPacket now dstStreamID srcStreamID frames).1.writeDatagrams pkts,
        (c.prepareDataPacket now dstStreamID srcStreamID frames).2) := by
  unfold prepareDataPacket
  dsimp only
  split <;> split
  · rfl
  · rename_i held free
    exact absurd held free
  · rename_i free held
    exact absurd held free
  · rfl

theorem sends_batch (acc : Connection F × List Packet) (frames : List StreamFrame) :
    let out := frames.foldl (batch now dstStreamID srcStreamID) acc
    Sends [(srcStreamID, dstStreamID)] (acc.1.writeDatagrams acc.2)
      (out.1.writeDatagrams out.2) := by
  induction frames generalizing acc with
  | nil => exact .refl
  | cons frame rest ih =>
    refine .trans ?_ (ih (batch now dstStreamID srcStreamID acc frame))
    have prepared := sends_prepareDataPacket (c := acc.1.writeDatagrams acc.2) now dstStreamID
      srcStreamID [.stream frame] fun _ => List.mem_singleton_self _
    rw [prepareDataPacket_writeDatagrams] at prepared
    rw [batch, writeDatagrams_append]
    exact prepared

theorem foldl_batch_spec (acc : Connection F × List Packet) {frames : List StreamFrame}
    (sendable : Sendable r dstStreamID srcStreamID (acc.1.frameSize dstStreamID srcStreamID)
      g.extent frames)
    (room : (frames.foldl (batch now dstStreamID srcStreamID) acc).1.pm.nextSeq ≤ 2 ^ 32)
    (custody : acc.1.Custody g) (shown : acc.1.Shown acc.2) :
    let out := frames.foldl (batch now dstStreamID srcStreamID) acc
    let g' := { g with extent := reach srcStreamID g.extent frames }
    (out.1.Custody g' ∧ Moves r (acc.1.flight g) (out.1.flight g')) ∧ out.1.Shown out.2 := by
  induction frames generalizing acc g with
  | nil => exact ⟨⟨custody, .refl⟩, shown⟩
  | cons frame rest ih =>
    rcases prepared : acc.1.prepareDataPacket now dstStreamID srcStreamID [.stream frame]
      with ⟨after, out⟩
    have step : batch now dstStreamID srcStreamID acc frame = (after, acc.2 ++ out.toList) := by
      simp only [batch, prepared]
    have before :=
      (sends_batch now dstStreamID srcStreamID (after, acc.2 ++ out.toList) rest).next
    have sizes : after.frameSize = acc.1.frameSize := by
      have := (sends_prepareDataPacket (c := acc.1) now dstStreamID srcStreamID
        [.stream frame] fun _ => List.mem_singleton_self _).endpoint
      rw [prepared] at this
      exact frameSize_congr this
    rw [List.foldl_cons, step] at room ⊢
    obtain ⟨⟨kept, moves⟩, grown, sent⟩ := prepareDataPacket_spec now dstStreamID srcStreamID
      frame (by rw [dataCargo_stream]; exact sendable.1) prepared (Nat.le_trans before room) custody
    have still : after.Shown (acc.2 ++ out.toList) := by
      intro pkt member
      rcases List.mem_append.mp member with old | new
      · obtain ⟨x, present, carries⟩ := shown pkt old
        exact ⟨x, grown present, carries⟩
      · exact sent pkt new
    obtain ⟨⟨last, later⟩, all⟩ := ih _ (by rw [sizes]; exact sendable.2) room kept still
    exact ⟨⟨last, moves.trans later⟩, all⟩

theorem sends_sendStreamFrames (offset : UInt64) (data : List UInt8) (chunkSize : Nat)
    (isSyn : Bool) :
    Sends [(srcStreamID, dstStreamID)] c
      (c.sendStreamFrames now srcStreamID dstStreamID offset data chunkSize isSyn) := by
  rw [sendStreamFrames_eq]
  exact Sends.trans (b := c.writeDatagrams []) (.quiet rfl rfl rfl rfl rfl rfl rfl)
    (sends_batch now dstStreamID srcStreamID (c, []) _)

theorem simulated_sendStreamFrames (offset : UInt64) (data : List UInt8) (chunkSize : Nat)
    (isSyn : Bool) (sendable : Sendable r dstStreamID srcStreamID
      (c.frameSize dstStreamID srcStreamID) g.extent
      (streamFrames false offset isSyn (Chunks.chunks chunkSize data))) :
    Simulated r c g (c.sendStreamFrames now srcStreamID dstStreamID offset data chunkSize isSyn)
      { g with
        extent := reach srcStreamID g.extent
          (streamFrames false offset isSyn (Chunks.chunks chunkSize data)) } := by
  rw [sendStreamFrames_eq]
  have batched := foldl_batch_spec (r := r) (g := g) now dstStreamID srcStreamID (c, []) sendable
  exact .andThen (fun room custody => batched room custody fun _ absent =>
    absurd absent List.not_mem_nil) (Nat.le_refl _) simulated_writeDatagrams

end Sending

end Connection

end Udx

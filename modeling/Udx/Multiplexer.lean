import Udx.Host
import Udx.Lib.Handoff

set_option autoImplicit false

/- The multiplexer: one socket, the connections it routes datagrams to by their
destination connection ID, and the goroutines of each. The read loop only
decodes and routes; a connection's packets wait in its inbound queue for its own
goroutine. -/

namespace Udx

open Handoff (offer)

/-- A packet that arrived before its connection's SYN. -/
structure EarlyPacket where
  pkt : Packet
  addr : Addr
deriving DecidableEq

/-- A connection and what the multiplexer and its goroutine keep for it: the key
it was registered under, its inbound queue, and the steps left of the packet in
hand. -/
structure Peer (F : Type) where
  host : Host F
  cidKey : ConnectionID
  dialled : Bool
  inbound : List Packet := []
  inboundDropped : Nat := 0
  inHand : List (Time → Host.Input) := []

/-- `peers` are all connections there have been; the tables name them by their
place in it. A connection ID stands for the hexadecimal text the code keys its
tables by. -/
structure Multiplexer (F : Type) where
  connections : AList (fun _ : ConnectionID => Nat) := ∅
  earlyPackets : AList (fun _ : ConnectionID => List EarlyPacket) := ∅
  incoming : List Nat := []
  peers : List (Peer F) := []

/-- A call of the application or a timer's callback: what is not part of handling
a packet. -/
def Host.Input.isCall : Host.Input → Bool
  | .arrive .. | .frame .. | .note .. | .observeAddr .. => false
  | _ => true

def Packet.hasSyn (pkt : Packet) : Bool :=
  pkt.frames.any fun
    | .stream f => f.isSyn
    | _ => false

/-- The steps of `HandlePacket`, each at its own time. -/
def Packet.handling (pkt : Packet) : List (Time → Host.Input) :=
  (fun now => .arrive now pkt) :: pkt.frames.map (fun f now => .frame now pkt f) ++
    if !isDataBearing pkt && !isNumberedProbe pkt then [] else [fun now => .note now pkt]

variable {F : Type} [Float64 F]

namespace Peer

def enqueue (p : Peer F) (pkt : Packet) : Peer F :=
  if p.inbound.length < inboundQueue then { p with inbound := p.inbound ++ [pkt] }
  else { p with inboundDropped := p.inboundDropped + 1 }

def observeAddr (p : Peer F) (now : Time) (addr : Addr) (challenge : Option (Vector UInt8 8)) :
    Peer F :=
  let (c, started) := p.host.conn.observeAddr now (some addr) challenge
  { p with
    host := { p.host with conn := c, challenges := p.host.challenges ++ started.toList } }

/-- A connection as the multiplexer makes it, its address taken as valid. -/
def newPeer (localCID remoteCID : ConnectionID) (addr : Addr) (dialled : Bool) (now : Time) :
    Peer F :=
  { host :=
      { conn :=
          { newConnection localCID remoteCID addr dialled true now with state := .established } }
    cidKey := localCID
    dialled := dialled }

end Peer

namespace Multiplexer

variable (m : Multiplexer F)

def removeConnection (cidKey : ConnectionID) : Multiplexer F :=
  { m with connections := m.connections.erase cidKey }

/-- A packet without a SYN for an unknown connection, kept while the caps allow. -/
def bufferEarly (pkt : Packet) (addr : Addr) : Multiplexer F :=
  if m.earlyPackets.entries.length < 256 then
    let buf := (m.earlyPackets.lookup pkt.destinationCID).getD []
    if buf.length < 32 then
      { m with earlyPackets := m.earlyPackets.insert pkt.destinationCID (buf ++ [⟨pkt, addr⟩]) }
    else m
  else m

/-- A SYN for an unknown connection. -/
def create (now : Time) (pkt : Packet) (addr : Addr) : Multiplexer F :=
  let localCID := pkt.destinationCID
  let remoteCID := pkt.sourceCID
  let early := (m.earlyPackets.lookup localCID).getD []
  let peer := Peer.newPeer localCID remoteCID addr false now
  let peer := early.foldl (fun peer ep => peer.enqueue ep.pkt) (peer.enqueue pkt)
  { connections := m.connections.insert localCID m.peers.length
    earlyPackets := m.earlyPackets.erase localCID
    incoming := offer 16 m.incoming m.peers.length
    peers := m.peers ++ [peer] }

def route (now : Time) (pkt : Packet) (addr : Addr) (challenge : Option (Vector UInt8 8)) :
    Multiplexer F :=
  if pkt.version ≠ versionCurrent then m
  else
    match m.connections.lookup pkt.destinationCID with
    | some i =>
      { m with
        peers := m.peers.modify i fun p => (p.observeAddr now addr challenge).enqueue pkt }
    | none => if !pkt.hasSyn then m.bufferEarly pkt addr else m.create now pkt addr

/-- `challenge` is what the random source gives `observeAddr`. -/
def handleDatagram (now : Time) (data : List UInt8) (addr : Addr)
    (challenge : Option (Vector UInt8 8)) : Multiplexer F :=
  match unmarshalPacket data with
  | .error _ => m
  | .ok pkt => m.route now pkt addr challenge

/-- Takes a connection a peer opened, or none while there is none. -/
def accept : Option (Multiplexer F × Nat) :=
  match m.incoming with
  | [] => none
  | i :: rest => some ({ m with incoming := rest }, i)

/-- `localCID` and `remoteCID` are what the random source gives. -/
def dial (now : Time) (localCID remoteCID : ConnectionID) (addr : Addr) : Multiplexer F :=
  let peer := Peer.newPeer localCID remoteCID addr true now
  let peer := { peer with
    host := { peer.host with conn := peer.host.conn.sendFrames now [.stream ⟨false, true, 0, []⟩] } }
  { m with
    connections := m.connections.insert localCID m.peers.length
    peers := m.peers ++ [peer] }

/-- A step of a connection. One that closes it takes it out of the table. -/
def onHost (i : Nat) (input : Host.Input) : Option (Multiplexer F) := do
  let p ← m.peers[i]?
  let h ← p.host.step input
  let m := { m with peers := m.peers.set i { p with host := h } }
  return if p.host.conn.state ≠ .closed ∧ h.conn.state = .closed then m.removeConnection p.cidKey
    else m

/-- The connection's goroutine takes the next packet from its queue. -/
def take (i : Nat) : Option (Multiplexer F) := do
  let p ← m.peers[i]?
  match p.inHand, p.inbound with
  | [], pkt :: rest =>
    some { m with peers := m.peers.set i { p with inbound := rest, inHand := pkt.handling } }
  | _, _ => none

/-- The next step of the packet in hand. -/
def proceed (i : Nat) (now : Time) : Option (Multiplexer F) := do
  let p ← m.peers[i]?
  match p.inHand with
  | [] => none
  | step :: rest =>
    onHost { m with peers := m.peers.set i { p with inHand := rest } } i (step now)

def isClosed (i : Nat) : Bool := m.peers[i]?.any fun p => p.host.conn.state = .closed

/-- A round of `idleTimeoutLoop`. -/
def idleRound : Multiplexer F :=
  m.connections.entries.foldl
    (fun m e => if m.isClosed e.2 then m.removeConnection e.1 else m) m

/-- `Close`: the table is emptied first, then its connections are closed. -/
def close (now : Time) : Multiplexer F :=
  (m.connections.entries.map Sigma.snd).foldl
    (fun m i => (m.onHost i (.close now errorNoError [])).getD m) { m with connections := ∅ }

inductive Event where
  | datagram (now : Time) (data : List UInt8) (addr : Addr) (challenge : Option (Vector UInt8 8))
  | accept
  | dial (now : Time) (localCID remoteCID : ConnectionID) (addr : Addr)
  | take (i : Nat)
  | proceed (i : Nat) (now : Time)
  | call (i : Nat) (input : Host.Input)
  | idleRound
  | close (now : Time)

def step : Event → Option (Multiplexer F)
  | .datagram now data addr challenge => some (m.handleDatagram now data addr challenge)
  | .accept => m.accept.map Prod.fst
  | .dial now localCID remoteCID addr =>
    if localCID.len = defaultCIDLength ∧ remoteCID.len = defaultCIDLength then
      some (m.dial now localCID remoteCID addr)
    else none
  | .take i => m.take i
  | .proceed i now => m.proceed i now
  | .call i input => if input.isCall then m.onHost i input else none
  | .idleRound => some m.idleRound
  | .close now => some (m.close now)

end Multiplexer

end Udx

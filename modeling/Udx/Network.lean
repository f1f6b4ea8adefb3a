import Udx.Multiplexer
import Udx.StreamTable

set_option autoImplicit false

/- Two connections and the network between them. What one of them hands over,
the other may receive at any time, any number of times, or never. -/

namespace Udx

inductive Net.Side where
  | left
  | right
deriving DecidableEq

def Net.Side.other : Net.Side → Net.Side
  | .left => .right
  | .right => .left

@[simp] theorem Net.Side.other_other (side : Net.Side) :
    side.other.other = side := by cases side <;> rfl

theorem Net.Side.eq_or_eq_other (side other : Net.Side) : side = other ∨ side = other.other := by
  cases side <;> cases other <;> simp [Net.Side.other]

theorem Net.Side.other_ne (side : Net.Side) : side.other ≠ side := by
  cases side <;> exact fun same => by cases same

theorem Net.Side.forall_of {P : Net.Side → Prop} (side : Net.Side) (here : P side)
    (there : P side.other) :
    ∀ side, P side := by
  cases side with
  | left => exact fun | .left => here | .right => there
  | right => exact fun | .left => there | .right => here

instance {P : Net.Side → Prop} [DecidablePred P] : Decidable (∀ side, P side) :=
  decidable_of_iff (P .left ∧ P .right)
    ⟨fun both => Net.Side.forall_of .left both.1 both.2, fun all => ⟨all .left, all .right⟩⟩

/-- The initiator is on the left. -/
structure Net (F : Type) where
  left : Host F
  right : Host F

/-- The packet was handed over, whatever its length was counted as on arrival. -/
def Host.sent {F : Type} (h : Host F) (pkt : Packet) : Bool :=
  h.conn.wire.any fun d => { d.packet with wireLen := pkt.wireLen } = pkt

theorem Host.sent_iff {F : Type} {h : Host F} {pkt : Packet} :
    h.sent pkt = true ↔ ∃ d ∈ h.conn.wire, { d.packet with wireLen := pkt.wireLen } = pkt := by
  simp [sent]

namespace Net

variable {F : Type} [Float64 F]

def host (n : Net F) : Side → Host F
  | .left => n.left
  | .right => n.right

def set (n : Net F) : Side → Host F → Net F
  | .left, h => { n with left := h }
  | .right, h => { n with right := h }

/-- What a connection handles of a packet is what its peer sent. -/
def arrives (n : Net F) (side : Side) : Host.Input → Bool
  | .arrive _ pkt | .note _ pkt => (n.host side.other).sent pkt
  | .frame _ pkt f => (n.host side.other).sent pkt && decide (f ∈ pkt.frames)
  | _ => true

def step (n : Net F) (turn : Side × Host.Input) : Option (Net F) :=
  if n.arrives turn.1 turn.2 then ((n.host turn.1).step turn.2).map (n.set turn.1) else none

/-- The initiator has just sent its SYN. -/
def start (cid peerCID : ConnectionID) (addr peerAddr : Addr) (now : Time) : Net F :=
  let dialled : Peer F := .newPeer cid peerCID peerAddr true now
  { left := { dialled.host with
      conn := dialled.host.conn.sendFrames now [.stream ⟨false, true, 0, []⟩] }
    right := (Peer.newPeer peerCID cid addr false now).host }

variable {n n' : Net F} {side : Side} {h : Host F} {input : Host.Input}

omit [Float64 F] in
@[simp] theorem host_set_self : (n.set side h).host side = h := by cases side <;> rfl

omit [Float64 F] in
@[simp] theorem host_set_other : (n.set side h).host side.other = n.host side.other := by
  cases side <;> rfl

theorem step_cases (taken : n.step (side, input) = some n') :
    n.arrives side input = true ∧ (n.host side).step input = some (n'.host side) ∧
      n'.host side.other = n.host side.other := by
  unfold step at taken
  split at taken
  · rename_i arrives
    obtain ⟨h, stepped, rfl⟩ := Option.map_eq_some_iff.mp taken
    exact ⟨arrives, by rw [host_set_self]; exact stepped, host_set_other⟩
  · cases taken

end Net

end Udx

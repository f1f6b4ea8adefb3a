import Udx.World

set_option autoImplicit false

/- The queue between the socket's read loop and a connection's goroutine. It holds
`inboundQueue` packets, and one that finds it full is dropped and counted. -/

namespace Udx

/-- The packet whose handling an input begins. -/
def Host.Input.begins : Host.Input → List Packet
  | .arrive _ pkt => [pkt]
  | _ => []

theorem Host.Input.begins_of_isCall {input : Host.Input} (call : input.isCall = true) :
    input.begins = [] := by
  cases input with
  | arrive => cases call
  | _ => rfl

namespace Packet

variable {pkt : Packet} {next : Time → Host.Input}

theorem begins_of_handling (member : next ∈ pkt.handling) (now later : Time) :
    (next now).begins = (next later).begins := by
  rcases handling_cases member with rfl | ⟨f, -, rfl⟩ | rfl <;> rfl

theorem begins_handling (pkt : Packet) :
    pkt.handling.flatMap (fun next => (next 0).begins) = [pkt] := by
  have frames : (pkt.frames.map fun f now => Host.Input.frame now pkt f).flatMap
      (fun next => (next 0).begins) = [] := by
    simp [Host.Input.begins]
  have last : (if !isDataBearing pkt && !isNumberedProbe pkt then []
      else [fun now => Host.Input.note now pkt]).flatMap (fun next => (next 0).begins) = [] := by
    split <;> rfl
  rw [handling, List.flatMap_append, List.flatMap_cons, frames, last]
  rfl

end Packet

namespace Peer

variable {F : Type} {p p' : Peer F} {arrived begun : List Packet} {event : Event}

/-- The packet that an event puts before the queue. -/
def Event.packets : Event → List Packet
  | .receive _ pkt _ _ => [pkt]
  | _ => []

/-- The packets that wait: one that is in hand and not begun, then the queue. -/
def unbegun (p : Peer F) : List Packet :=
  p.inHand.flatMap (fun next => (next 0).begins) ++ p.inbound

/-- Of the packets that arrived, in their order, those that were begun are followed by
those that wait, and the others were dropped. -/
structure QueueAccounts (arrived begun : List Packet) (p : Peer F) : Prop where
  order : (begun ++ p.unbegun).Sublist arrived
  count : begun.length + p.unbegun.length + p.inboundDropped = arrived.length
  room : p.inbound.length ≤ inboundQueue
  holds : p.AllPending fun _ => True

theorem QueueAccounts.withHost (accounts : p.QueueAccounts arrived begun) (h : Host F) :
    ({ p with host := h } : Peer F).QueueAccounts arrived begun :=
  ⟨accounts.order, accounts.count, accounts.room, accounts.holds.inbound, accounts.holds.inHand⟩

theorem QueueAccounts.enqueue (accounts : p.QueueAccounts arrived begun) (pkt : Packet) :
    (p.enqueue pkt).QueueAccounts (arrived ++ [pkt]) begun := by
  have holds : (p.enqueue pkt).AllPending fun _ => True := accounts.holds.enqueue trivial
  have count := accounts.count
  unfold Peer.enqueue at holds ⊢
  split at holds
  · rename_i room
    rw [if_pos room]
    have longer : ({ p with inbound := p.inbound ++ [pkt] } : Peer F).unbegun =
        p.unbegun ++ [pkt] := (List.append_assoc _ _ _).symm
    refine ⟨?_, ?_, ?_, holds⟩
    · rw [longer, ← List.append_assoc]
      exact accounts.order.append (List.Sublist.refl _)
    · rw [longer, List.length_append, List.length_append, List.length_singleton]
      dsimp only
      omega
    · rw [List.length_append]
      exact room
  · rename_i full
    rw [if_neg full]
    refine ⟨accounts.order.trans (List.sublist_append_left _ _), ?_, accounts.room, holds⟩
    rw [List.length_append, List.length_singleton, ← count]
    exact (Nat.add_assoc _ _ _).symm

theorem QueueAccounts.foldl_enqueue (accounts : p.QueueAccounts arrived begun)
    (early : List EarlyPacket) :
    (early.foldl (fun p ep => p.enqueue ep.pkt) p).QueueAccounts
      (arrived ++ early.map EarlyPacket.pkt) begun := by
  induction early generalizing p arrived with
  | nil =>
    rw [List.map_nil, List.append_nil]
    exact accounts
  | cons ep rest ih =>
    rw [List.map_cons, List.append_cons]
    exact ih (accounts.enqueue ep.pkt)

variable [Float64 F]

theorem QueueAccounts.step (accounts : p.QueueAccounts arrived begun) (calls : event.Calls)
    (taken : p.step event = some p') :
    p'.QueueAccounts (arrived ++ event.packets) (begun ++ (p.inputs event).flatMap Host.Input.begins) := by
  have brings : event.Brings fun _ => True := by cases event <;> trivial
  have holds := accounts.holds.step brings taken
  cases event with
  | receive now pkt addr challenge =>
    obtain rfl := Option.some.inj taken
    have observed : (p.observeAddr now addr challenge).QueueAccounts arrived begun :=
      accounts.withHost _
    show QueueAccounts _ (begun ++ []) _
    rw [List.append_nil]
    exact observed.enqueue pkt
  | take =>
    rw [Peer.step] at taken
    split at taken
    · rename_i pkt rest inHand inbound
      obtain rfl := Option.some.inj taken
      -- The packet moves from the queue to the hand.
      have same : ({ p with inbound := rest, inHand := pkt.handling } : Peer F).unbegun =
          p.unbegun := by
        rw [unbegun, unbegun, inHand, inbound, Packet.begins_handling]
        rfl
      have room := accounts.room
      rw [inbound, List.length_cons] at room
      show QueueAccounts (arrived ++ []) (begun ++ []) _
      rw [List.append_nil, List.append_nil]
      refine ⟨?_, ?_, Nat.le_of_succ_le room, holds⟩
      · rw [same]
        exact accounts.order
      · rw [same]
        exact accounts.count
    · cases taken
  | proceed now =>
    rw [Peer.step] at taken
    split at taken
    · cases taken
    · rename_i next rest inHand
      obtain ⟨h, -, rfl⟩ := Option.map_eq_some_iff.mp taken
      obtain ⟨pkt, -, part⟩ := accounts.holds.inHand next (inHand ▸ List.mem_cons_self)
      have moved : p.unbegun = (next now).begins ++
          ({ p with host := h, inHand := rest } : Peer F).unbegun := by
        rw [unbegun, unbegun, inHand, List.flatMap_cons, List.append_assoc,
          Packet.begins_of_handling part 0 now]
      have input : (p.inputs (.proceed now)).flatMap Host.Input.begins = (next now).begins := by
        rw [inputs, inHand]
        exact List.append_nil _
      have order := accounts.order
      have count := accounts.count
      rw [moved] at order count
      rw [input]
      show QueueAccounts (arrived ++ []) _ _
      rw [List.append_nil]
      refine ⟨?_, ?_, accounts.room, holds⟩
      · rw [List.append_assoc]
        exact order
      · rw [List.length_append] at count ⊢
        dsimp only
        omega
  | call input =>
    obtain ⟨h, -, rfl⟩ := Option.map_eq_some_iff.mp taken
    have quiet : (p.inputs (.call input)).flatMap Host.Input.begins = [] := by
      rw [inputs, List.flatMap_cons, Host.Input.begins_of_isCall calls]
      rfl
    rw [quiet, List.append_nil]
    show QueueAccounts (arrived ++ []) _ _
    rw [List.append_nil]
    exact accounts.withHost h

theorem QueueAccounts.run {events : List Event} (accounts : p.QueueAccounts arrived begun)
    (calls : ∀ event ∈ events, event.Calls) (reached : Runs.run Peer.step p events = some p') :
    p'.QueueAccounts (arrived ++ events.flatMap Event.packets)
      (begun ++ (Runs.output Peer.step inputs p events).flatMap Host.Input.begins) := by
  induction events generalizing p arrived begun with
  | nil =>
    obtain rfl := Option.some.inj reached
    rw [Runs.output, List.flatMap_nil, List.flatMap_nil, List.append_nil, List.append_nil]
    exact accounts
  | cons event rest ih =>
    obtain ⟨call, later⟩ := List.forall_mem_cons.mp calls
    rw [Runs.run_cons] at reached
    obtain ⟨mid, taken, reached⟩ := Option.bind_eq_some_iff.mp reached
    rw [Runs.output, taken, Option.elim_some, List.flatMap_cons, List.flatMap_append,
      ← List.append_assoc, ← List.append_assoc]
    exact ih (accounts.step call taken) later reached

theorem accounts_newPeer (localCID remoteCID : ConnectionID) (addr : Addr) (dialled : Bool)
    (now : Time) : (newPeer localCID remoteCID addr dialled now : Peer F).QueueAccounts [] [] :=
  ⟨List.Sublist.refl _, rfl, Nat.zero_le _, List.forall_mem_nil _, List.forall_mem_nil _⟩

end Peer

namespace Multiplexer

variable {F : Type} [Float64 F] {m m' : Multiplexer F} {event : Event} {i : Nat}

/-- The packets that an event has for the connection `i`: one for a connection in the
table, or the SYN that makes it and what had come before the SYN. -/
def addressed (m : Multiplexer F) (i : Nat) : Event → List Packet
  | .datagram _ data _ _ =>
    match unmarshalPacket data with
    | .error _ => []
    | .ok pkt =>
      if pkt.version = versionCurrent then
        match m.connections.lookup pkt.destinationCID with
        | some j => if j = i then [pkt] else []
        | none =>
          if pkt.hasSyn ∧ i = m.peers.length then
            pkt :: ((m.earlyPackets.lookup pkt.destinationCID).getD []).map EarlyPacket.pkt
          else []
      else []
  | _ => []

/-- The packets for the connection `i` in a run, as they came. -/
def arrivedFor (start : Multiplexer F) (i : Nat) (events : List Event) : List Packet :=
  Runs.output step (fun m => m.addressed i) start events

/-- The packets that `HandlePacket` of the connection `i` has been called with in a run. -/
def handledFor (start : Multiplexer F) (i : Nat) (events : List Event) : List Packet :=
  (Runs.output step (fun m => m.inputs i) start events).flatMap Host.Input.begins

omit [Float64 F] in
theorem addressed_of_lt (inside : i < m.peers.length) (event : Event) :
    m.addressed i event = (m.peerEvents i event).flatMap Peer.Event.packets := by
  have none {P : Prop} [Decidable P] {part : Peer.Event} (quiet : part.packets = []) :
      (if P then [part] else []).flatMap Peer.Event.packets = [] := by
    split
    · rw [List.flatMap_singleton, quiet]
    · rfl
  cases event with
  | datagram now data addr challenge =>
    rw [addressed, peerEvents]
    cases unmarshalPacket data with
    | error => rfl
    | ok pkt =>
      dsimp only
      by_cases version : pkt.version = versionCurrent
      · rw [if_pos version]
        cases m.connections.lookup pkt.destinationCID with
        | none =>
          dsimp only
          rw [if_neg fun both => Nat.ne_of_lt inside both.2, if_neg fun both => by cases both.2]
          rfl
        | some j =>
          dsimp only
          by_cases same : j = i
          · rw [if_pos same, if_pos ⟨version, congrArg some same⟩]
            rfl
          · rw [if_neg same, if_neg fun both => same (Option.some.inj both.2)]
            rfl
      · rw [if_neg version, if_neg fun both => version both.1]
        rfl
  | take | proceed | call => exact (none rfl).symm
  | close now =>
    rw [peerEvents, List.flatMap_map]
    exact (List.flatMap_eq_nil_iff.mpr fun e member => rfl).symm
  | accept | dial | idleRound => rfl

theorem accounts_entered {p : Peer F} (entered : p ∈ m.entered event) :
    p.QueueAccounts (m.addressed m.peers.length event) [] := by
  cases event with
  | datagram now data addr challenge =>
    rw [Multiplexer.entered] at entered
    rw [addressed]
    cases decoded : unmarshalPacket data with
    | error =>
      rw [decoded] at entered
      cases entered
    | ok pkt =>
      rw [decoded] at entered
      obtain ⟨⟨version, unknown, syn⟩, made⟩ := Option.ite_none_right_eq_some.mp entered
      obtain rfl := Option.some.inj made
      dsimp only
      rw [if_pos version, unknown]
      dsimp only
      rw [if_pos ⟨syn, rfl⟩]
      exact ((Peer.accounts_newPeer _ _ _ _ _).enqueue pkt).foldl_enqueue _
  | dial now localCID remoteCID addr =>
    obtain rfl := Option.some.inj entered
    exact (Peer.accounts_newPeer localCID remoteCID addr true now).withHost _
  | accept | take | proceed | call | idleRound | close => cases entered

theorem addressed_of_absent (table : ∀ e ∈ m.connections.entries, e.2 < m.peers.length)
    (advances : PeersAdvance m m' event) (absent : m'.peers.length ≤ i) :
    m.addressed i event = [] := by
  have new := advances.new
  cases event with
  | datagram now data addr challenge =>
    rw [addressed]
    cases decoded : unmarshalPacket data with
    | error => rfl
    | ok pkt =>
      dsimp only
      split
      · rename_i version
        split
        · rename_i j known
          have below := table _ (Tables.mem_entries_iff.mpr known)
          dsimp only at below
          rw [if_neg (by omega)]
        · rename_i unknown
          refine if_neg fun both => ?_
          rw [entered, decoded] at new
          dsimp only at new
          rw [if_pos ⟨version, unknown, both.1⟩, Option.toList_some, List.length_singleton] at new
          omega
      · rfl
  | accept | dial | take | proceed | call | idleRound | close => rfl

/-- The accounts of all connections after a run. -/
structure Tallied (start : Multiplexer F) (events : List Event) (m : Multiplexer F) : Prop where
  table : ∀ e ∈ m.connections.entries, e.2 < m.peers.length
  known : ∀ (i : Nat) (p : Peer F), m.peers[i]? = some p →
    p.QueueAccounts (start.arrivedFor i events) (start.handledFor i events)
  unknown : ∀ i, m.peers.length ≤ i → start.arrivedFor i events = [] ∧
    start.handledFor i events = []

theorem Tallied.step {start : Multiplexer F} {events : List Event}
    (reached : Runs.run Multiplexer.step start events = some m) (tallied : start.Tallied events m)
    (taken : m.step event = some m') : start.Tallied (events ++ [event]) m' := by
  have advances := advances_step taken
  have arrivedFor (i : Nat) :
      start.arrivedFor i (events ++ [event]) = start.arrivedFor i events ++ m.addressed i event :=
    Runs.output_append_singleton reached
  have handledFor (i : Nat) : start.handledFor i (events ++ [event]) =
      start.handledFor i events ++ (m.inputs i event).flatMap Host.Input.begins := by
    rw [Multiplexer.handledFor, Runs.output_append_singleton reached, List.flatMap_append]
    rfl
  have quiet {i : Nat} (absent : m.peers.length ≤ i) :
      start.handledFor i (events ++ [event]) = [] := by
    rw [handledFor, (tallied.unknown i absent).2, inputs, List.getElem?_eq_none absent]
    rfl
  refine ⟨fun e member => ?_, fun i p found => ?_, fun i absent => ?_⟩
  · rcases advances.table e member with old | ⟨p, entered, rfl⟩
    · have := tallied.table e old
      have := advances.new
      omega
    · exact (List.getElem?_eq_some_iff.mp (advances.entered p entered)).1
  · rcases advances.cases found with ⟨q, before, ran⟩ | ⟨rfl, entered⟩
    · have inside := (List.getElem?_eq_some_iff.mp before).1
      rw [arrivedFor, handledFor, addressed_of_lt inside, inputs, before, Option.elim_some]
      exact (tallied.known i q before).run (calls_peerEvents taken) ran
    · rw [quiet (Nat.le_refl _), arrivedFor, (tallied.unknown _ (Nat.le_refl _)).1, List.nil_append]
      exact accounts_entered entered
  · have before : m.peers.length ≤ i := by
      have := advances.new
      omega
    rw [arrivedFor, (tallied.unknown i before).1, addressed_of_absent tallied.table advances absent]
    exact ⟨rfl, quiet before⟩

theorem tallied_run {events : List Event} (reached : Runs.run step {} events = some m) :
    ({} : Multiplexer F).Tallied events m := by
  refine Runs.trace_invariant (Tallied {}) ?_ ?_ (Runs.along_true {} events) reached
  · exact ⟨List.forall_mem_nil _, (fun _ _ found => by cases found), fun _ _ => ⟨rfl, rfl⟩⟩
  · exact fun _ _ _ _ reached tallied _ taken => tallied.step reached taken

/-- Whatever the order in which sockets, goroutines and callers run, a connection
handles the packets that come for it in the order in which they came, each at most
once; those not handled wait in that order, and every other one is counted as dropped. -/
theorem queue_keeps_order {events : List Event} (reached : Runs.run step {} events = some m)
    {p : Peer F} (found : m.peers[i]? = some p) :
    (({} : Multiplexer F).handledFor i events ++ p.unbegun).Sublist
        (({} : Multiplexer F).arrivedFor i events) ∧
      (({} : Multiplexer F).handledFor i events).length + p.unbegun.length + p.inboundDropped =
        (({} : Multiplexer F).arrivedFor i events).length ∧
      p.inbound.length ≤ inboundQueue :=
  have accounts := (tallied_run reached).known i p found
  ⟨accounts.order, accounts.count, accounts.room⟩

/-- A SYN and then a PING reach a socket, and the SYN's handling begins. -/
def greeting : List Event :=
  let header : List UInt8 := [0, 0, 0, 3, 1, 7, 1, 9, 0, 0, 0, 0, 0, 0, 0, 0, 0, 0, 0, 1]
  [.datagram 0 (header ++ [0x03, 0x02, 0, 0, 0, 0, 0, 0, 0, 0, 0, 0]) "peer" none,
    .datagram 1 (header ++ [0x01]) "peer" none, .take 0, .proceed 0 2]

theorem queue_keeps_order_greeting :
    ∃ (m : Multiplexer ℚ) (p : Peer ℚ), Runs.run step {} greeting = some m ∧
      m.peers[0]? = some p ∧ p.unbegun.length = 1 ∧
      (({} : Multiplexer ℚ).handledFor 0 greeting).length = 1 ∧
      (({} : Multiplexer ℚ).handledFor 0 greeting ++ p.unbegun).Sublist
        (({} : Multiplexer ℚ).arrivedFor 0 greeting) := by
  have waits : (Runs.run step ({} : Multiplexer ℚ) greeting).any (fun m =>
      m.peers[0]?.any fun p => p.unbegun.length = 1) = true := by
    decide +kernel
  have begun : (({} : Multiplexer ℚ).handledFor 0 greeting).length = 1 := by decide +kernel
  obtain ⟨m, reached, waits⟩ := Runs.reaches_of_any waits
  obtain ⟨p, found, waits⟩ := (Option.any_eq_true _ _).mp waits
  exact ⟨m, p, reached, found, of_decide_eq_true waits, begun, (queue_keeps_order reached found).1⟩

end Multiplexer

end Udx

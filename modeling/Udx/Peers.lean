import Udx.EarlyPackets
import Udx.Integrity
import Udx.PathAnswer

set_option autoImplicit false

/- The multiplexer as a family of connections. Each has its queue, its goroutine
and its calls; an event of the multiplexer is a run of events of each, and what it
does to one does not depend on the others. -/

namespace Udx

/-- What belongs to a packet belongs to one that `S` holds of. -/
def Host.Input.Allowed (S : Packet → Prop) : Host.Input → Prop
  | .arrive _ pkt | .note _ pkt => S pkt
  | .frame _ pkt f => S pkt ∧ f ∈ pkt.frames
  | _ => True

theorem Host.Input.allowed_of_isCall {S : Packet → Prop} {input : Host.Input}
    (call : input.isCall = true) :
    input.Allowed S := by
  cases input with
  | arrive | frame | note | observeAddr => cases call
  | _ => trivial

namespace Packet

variable {S : Packet → Prop} {pkt : Packet} {next : Time → Host.Input}

theorem handling_cases (member : next ∈ pkt.handling) :
    next = (fun now => .arrive now pkt) ∨ (∃ f ∈ pkt.frames, (fun now => .frame now pkt f) = next) ∨
      next = fun now => .note now pkt := by
  rcases List.mem_append.mp member with early | late
  · exact (List.mem_cons.mp early).imp_right fun frame => .inl (List.mem_map.mp frame)
  · split at late
    · cases late
    · exact .inr (.inr (List.mem_singleton.mp late))

theorem allowed_handling (holds : S pkt) (member : next ∈ pkt.handling) (now : Time) :
    (next now).Allowed S := by
  rcases handling_cases member with rfl | ⟨f, inside, rfl⟩ | rfl
  · exact holds
  · exact ⟨holds, inside⟩
  · exact holds

theorem given_handling (member : next ∈ pkt.handling) (now : Time) : (next now).given = 0 := by
  rcases handling_cases member with rfl | ⟨f, -, rfl⟩ | rfl <;> rfl

theorem brief_handling (member : next ∈ pkt.handling) (now : Time) : (next now).Brief := by
  rcases handling_cases member with rfl | ⟨f, -, rfl⟩ | rfl <;> trivial

end Packet

namespace Peer

variable {F : Type} [Float64 F]

/-- What the multiplexer, its own goroutine and the application do with a
connection. -/
inductive Event where
  | receive (now : Time) (pkt : Packet) (addr : Addr) (challenge : Option (Vector UInt8 8))
  | take
  | proceed (now : Time)
  | call (input : Host.Input)

def step (p : Peer F) : Event → Option (Peer F)
  | .receive now pkt addr challenge => some ((p.observeAddr now addr challenge).enqueue pkt)
  | .take =>
    match p.inHand, p.inbound with
    | [], pkt :: rest => some { p with inbound := rest, inHand := pkt.handling }
    | _, _ => none
  | .proceed now =>
    match p.inHand with
    | [] => none
    | next :: rest => (p.host.step (next now)).map fun h => { p with host := h, inHand := rest }
  | .call input => (p.host.step input).map fun h => { p with host := h }

def inputs (p : Peer F) : Event → List Host.Input
  | .receive now _ addr challenge => [.observeAddr now (some addr) challenge]
  | .take => []
  | .proceed now => (p.inHand.head?.map fun next => next now).toList
  | .call input => [input]

/-- What stays with a connection. -/
structure Stays (p p' : Peer F) : Prop where
  cidKey : p'.cidKey = p.cidKey
  dialled : p'.dialled = p.dialled

variable {p p' : Peer F} {event : Event}

theorem stays_step (taken : p.step event = some p') : p.Stays p' := by
  cases event with
  | receive now pkt addr challenge =>
    obtain rfl := Option.some.inj taken
    exact ⟨cidKey_enqueue pkt, dialled_enqueue pkt⟩
  | take =>
    rw [step] at taken
    split at taken
    · obtain rfl := Option.some.inj taken
      exact ⟨rfl, rfl⟩
    · cases taken
  | proceed now =>
    rw [step] at taken
    split at taken
    · cases taken
    · obtain ⟨h, -, rfl⟩ := Option.map_eq_some_iff.mp taken
      exact ⟨rfl, rfl⟩
  | call input =>
    obtain ⟨h, -, rfl⟩ := Option.map_eq_some_iff.mp taken
    exact ⟨rfl, rfl⟩

/-- An event of a connection is a run of its host. -/
theorem run_inputs (taken : p.step event = some p') :
    Runs.run Host.step p.host (p.inputs event) = some p'.host := by
  cases event with
  | receive now pkt addr challenge =>
    obtain rfl := Option.some.inj taken
    rw [host_enqueue]
    rfl
  | take =>
    rw [step] at taken
    split at taken
    · obtain rfl := Option.some.inj taken
      rfl
    · cases taken
  | proceed now =>
    rw [step] at taken
    split at taken
    · cases taken
    · rename_i next rest inHand
      obtain ⟨h, stepped, rfl⟩ := Option.map_eq_some_iff.mp taken
      rw [inputs, inHand]
      show Runs.run Host.step p.host [next now] = some h
      rw [Runs.run_cons, stepped]
      rfl
  | call input =>
    obtain ⟨h, stepped, rfl⟩ := Option.map_eq_some_iff.mp taken
    rw [inputs, Runs.run_cons, stepped]
    rfl

/-- Of every packet that waits or is in hand, `S` holds. -/
structure AllPending (S : Packet → Prop) (p : Peer F) : Prop where
  inbound : ∀ pkt ∈ p.inbound, S pkt
  inHand : ∀ next ∈ p.inHand, ∃ pkt, S pkt ∧ next ∈ pkt.handling

/-- A packet that `S` holds of, if the event brings one. -/
def Event.Brings (S : Packet → Prop) : Event → Prop
  | .receive _ pkt _ _ => S pkt
  | _ => True

variable {S T : Packet → Prop}

omit [Float64 F] in
theorem AllPending.enqueue (holds : p.AllPending S) {pkt : Packet} (here : S pkt) :
    (p.enqueue pkt).AllPending S := by
  unfold Peer.enqueue
  split
  · exact ⟨List.forall_mem_append.mpr ⟨holds.inbound, List.forall_mem_singleton.mpr here⟩,
      holds.inHand⟩
  · exact ⟨holds.inbound, holds.inHand⟩

omit [Float64 F] in
theorem AllPending.foldl_enqueue (holds : p.AllPending S) {early : List EarlyPacket}
    (each : ∀ ep ∈ early, S ep.pkt) :
    (early.foldl (fun p ep => p.enqueue ep.pkt) p).AllPending S := by
  induction early generalizing p with
  | nil => exact holds
  | cons ep rest ih =>
    obtain ⟨here, later⟩ := List.forall_mem_cons.mp each
    exact ih (holds.enqueue here) later

omit [Float64 F] in
theorem AllPending.mono (holds : p.AllPending S) (weaker : ∀ pkt, S pkt → T pkt) : p.AllPending T :=
  ⟨fun pkt member => weaker pkt (holds.inbound pkt member), fun next member =>
    (holds.inHand next member).imp fun pkt => And.imp_left (weaker pkt)⟩

theorem AllPending.step (holds : p.AllPending S) (brings : event.Brings S)
    (taken : p.step event = some p') : p'.AllPending S := by
  cases event with
  | receive now pkt addr challenge =>
    obtain rfl := Option.some.inj taken
    have observed : (p.observeAddr now addr challenge).AllPending S := ⟨holds.inbound, holds.inHand⟩
    exact observed.enqueue brings
  | take =>
    rw [Peer.step] at taken
    split at taken
    · rename_i pkt rest inHand inbound
      obtain rfl := Option.some.inj taken
      obtain ⟨here, later⟩ := List.forall_mem_cons.mp (inbound ▸ holds.inbound)
      exact ⟨later, fun next member => ⟨pkt, here, member⟩⟩
    · cases taken
  | proceed now =>
    rw [Peer.step] at taken
    split at taken
    · cases taken
    · rename_i next rest inHand
      obtain ⟨h, -, rfl⟩ := Option.map_eq_some_iff.mp taken
      exact ⟨holds.inbound, fun next member => holds.inHand next
        (inHand ▸ List.mem_cons_of_mem _ member)⟩
  | call input =>
    obtain ⟨h, -, rfl⟩ := Option.map_eq_some_iff.mp taken
    exact ⟨holds.inbound, holds.inHand⟩

/-- A call is one of the application or a timer. -/
def Event.Calls : Event → Prop
  | .call input => input.isCall = true
  | _ => True

omit [Float64 F] in
theorem allowed_inputs (holds : p.AllPending S) (calls : event.Calls) :
    ∀ input ∈ p.inputs event, input.Allowed S := by
  cases event with
  | receive => exact List.forall_mem_singleton.mpr trivial
  | take => exact List.forall_mem_nil _
  | call input => exact List.forall_mem_singleton.mpr (Host.Input.allowed_of_isCall calls)
  | proceed now =>
    intro input member
    obtain ⟨next, front, rfl⟩ := Option.map_eq_some_iff.mp (Option.mem_toList.mp member)
    obtain ⟨pkt, here, part⟩ := holds.inHand next (List.mem_of_mem_head? front)
    exact Packet.allowed_handling here part now

theorem run_host {events : List Event} (reached : Runs.run step p events = some p') :
    Runs.run Host.step p.host (Runs.output step inputs p events) = some p'.host := by
  induction events generalizing p with
  | nil => exact congrArg (Option.map host) reached
  | cons event rest ih =>
    rw [Runs.run_cons] at reached
    obtain ⟨mid, taken, reached⟩ := Option.bind_eq_some_iff.mp reached
    rw [Runs.output, taken, Option.elim_some, Runs.run_append, run_inputs taken, Option.bind_some]
    exact ih reached

/-- It handles only what was in its queue or came into it. -/
theorem AllPending.run {events : List Event} (holds : p.AllPending S)
    (each : ∀ event ∈ events, event.Brings S ∧ event.Calls)
    (reached : Runs.run Peer.step p events = some p') :
    (∀ input ∈ Runs.output Peer.step inputs p events, input.Allowed S) ∧ p'.AllPending S := by
  induction events generalizing p with
  | nil =>
    obtain rfl := Option.some.inj reached
    exact ⟨List.forall_mem_nil _, holds⟩
  | cons event rest ih =>
    obtain ⟨⟨brings, calls⟩, later⟩ := List.forall_mem_cons.mp each
    rw [Runs.run_cons] at reached
    obtain ⟨mid, taken, reached⟩ := Option.bind_eq_some_iff.mp reached
    obtain ⟨allowed, holds'⟩ := ih (holds.step brings taken) later reached
    rw [Runs.output, taken, Option.elim_some]
    exact ⟨List.forall_mem_append.mpr ⟨allowed_inputs holds calls, allowed⟩, holds'⟩

/-- How much the call gives to a write. -/
def Event.given : Event → Nat
  | .call input => input.given
  | _ => 0

omit [Float64 F] in
theorem given_inputs (holds : p.AllPending S) :
    ((p.inputs event).map Host.Input.given).sum ≤ event.given := by
  cases event with
  | receive | take => exact Nat.le_refl 0
  | call input => exact Nat.le_of_eq (Nat.add_zero _)
  | proceed now =>
    rw [inputs]
    cases inHand : p.inHand with
    | nil => exact Nat.le_refl 0
    | cons next rest =>
      obtain ⟨pkt, -, part⟩ := holds.inHand next (inHand ▸ List.mem_cons_self)
      exact Nat.le_of_eq (Packet.given_handling part now)

theorem AllPending.given_output (holds : p.AllPending fun _ => True) (events : List Event) :
    ((Runs.output Peer.step inputs p events).map Host.Input.given).sum ≤
      (events.map Event.given).sum := by
  induction events generalizing p with
  | nil => exact Nat.le_refl 0
  | cons event rest ih =>
    rw [Runs.output, List.map_append, List.sum_append, List.map_cons, List.sum_cons]
    refine Nat.add_le_add (given_inputs holds) ?_
    cases taken : p.step event with
    | none => exact Nat.zero_le _
    | some p' => exact ih (holds.step (by cases event <;> trivial) taken)

/-- A call that closes the connection gives a brief reason. -/
def Event.Brief : Event → Prop
  | .call input => input.Brief
  | _ => True

omit [Float64 F] in
theorem brief_inputs (holds : p.AllPending S) (brief : event.Brief) :
    ∀ input ∈ p.inputs event, input.Brief := by
  cases event with
  | receive => exact List.forall_mem_singleton.mpr trivial
  | take => exact List.forall_mem_nil _
  | call input => exact List.forall_mem_singleton.mpr brief
  | proceed now =>
    intro input member
    obtain ⟨next, front, rfl⟩ := Option.map_eq_some_iff.mp (Option.mem_toList.mp member)
    obtain ⟨pkt, -, part⟩ := holds.inHand next (List.mem_of_mem_head? front)
    exact Packet.brief_handling part now

/-- A connection that is registered under its own ID, and whose peer can read what
it has sent. -/
structure Fit (p : Peer F) : Prop where
  legible : p.host.Legible
  key : p.host.conn.localCID = p.cidKey
  holds : p.AllPending fun _ => True

theorem Fit.step (fit : p.Fit) (brief : event.Brief) (taken : p.step event = some p') :
    p'.Fit ∧ p'.host.conn.remoteCID = p.host.conn.remoteCID := by
  obtain ⟨legible, here, there⟩ := Host.legible_run fit.legible (brief_inputs fit.holds brief)
    (run_inputs taken)
  have brings : event.Brings fun _ => True := by cases event <;> trivial
  exact ⟨⟨legible, by rw [here, fit.key, (stays_step taken).cidKey],
    fit.holds.step brings taken⟩, there⟩

/-- What a connection keeps through a run. -/
structure Same (p p' : Peer F) : Prop extends Stays p p' where
  remoteCID : p'.host.conn.remoteCID = p.host.conn.remoteCID

theorem Fit.run (fit : p.Fit) {events : List Event} (brief : ∀ event ∈ events, event.Brief)
    (reached : Runs.run Peer.step p events = some p') : p'.Fit ∧ p.Same p' := by
  refine Runs.invariant (fun q => q.Fit ∧ p.Same q) ?_ ⟨fit, ⟨⟨rfl, rfl⟩, rfl⟩⟩
    (Runs.along_of_forall (fun event member _ => brief event member) p) reached
  rintro q event q' ⟨fit, same⟩ brief taken
  obtain ⟨fit', there⟩ := fit.step brief taken
  have stays := stays_step taken
  exact ⟨fit', ⟨stays.cidKey.trans same.cidKey, stays.dialled.trans same.dialled⟩,
    there.trans same.remoteCID⟩

theorem fit_newPeer (localCID remoteCID : ConnectionID) (addr : Addr) (dialled : Bool)
    (now : Time) : (newPeer localCID remoteCID addr dialled now : Peer F).Fit := by
  refine ⟨?_, rfl, List.forall_mem_nil _, List.forall_mem_nil _⟩
  exact Connection.speaks_new (tolerates_legible localCID remoteCID) rfl rfl rfl rfl

theorem speaks_syn (localCID remoteCID : ConnectionID) (addr : Addr) (now : Time) :
    ((newPeer localCID remoteCID addr true now : Peer F).host.conn.sendFrames now
      [.stream ⟨false, true, 0, []⟩]).Speaks (.between localCID remoteCID)
      (Packet.Legible localCID remoteCID) :=
  Connection.Speaks.sendPacket (fit_newPeer localCID remoteCID addr true now).legible now 0 0
    fun _ => Packet.legible_of_frame (by simp [Frame.Encodable]) (by decide)

omit [Float64 F] in
theorem Fit.enqueue (fit : p.Fit) (pkt : Packet) : (p.enqueue pkt).Fit := by
  have host := host_enqueue (p := p) pkt
  refine ⟨?_, ?_, fit.holds.enqueue trivial⟩
  · rw [host]
    exact fit.legible
  · rw [host, fit.key, cidKey_enqueue]

end Peer

namespace Multiplexer

variable {F : Type} [Float64 F]

/-- The part an event has for the connection `i`. -/
def peerEvents (m : Multiplexer F) (i : Nat) : Event → List Peer.Event
  | .datagram now data addr challenge =>
    match unmarshalPacket data with
    | .error _ => []
    | .ok pkt =>
      if pkt.version = versionCurrent ∧ m.connections.lookup pkt.destinationCID = some i then
        [.receive now pkt addr challenge]
      else []
  | .take j => if j = i then [.take] else []
  | .proceed j now => if j = i then [.proceed now] else []
  | .call j input => if j = i then [.call input] else []
  | .close now =>
    (m.connections.entries.filter fun e => e.2 = i).map fun _ => .call (.close now errorNoError [])
  | .accept | .dial .. | .idleRound => []

def entered (m : Multiplexer F) : Event → Option (Peer F)
  | .datagram now data addr _ =>
    match unmarshalPacket data with
    | .error _ => none
    | .ok pkt =>
      if pkt.version = versionCurrent ∧ m.connections.lookup pkt.destinationCID = none ∧
          pkt.hasSyn then
        some (((m.earlyPackets.lookup pkt.destinationCID).getD []).foldl
          (fun peer ep => peer.enqueue ep.pkt)
          ((Peer.newPeer pkt.destinationCID pkt.sourceCID addr false now).enqueue pkt))
      else none
  | .dial now localCID remoteCID addr =>
    let peer := Peer.newPeer localCID remoteCID addr true now
    some { peer with
      host := { peer.host with
        conn := peer.host.conn.sendFrames now [.stream ⟨false, true, 0, []⟩] } }
  | _ => none

variable {m m' : Multiplexer F} {i : Nat} {p : Peer F} {event : Event}

/-- The connections after an event: each old one has taken its part, and one may be
new and is registered. -/
structure PeersAdvance (m m' : Multiplexer F) (event : Event) : Prop where
  old : ∀ i p, m.peers[i]? = some p →
    ∃ p', m'.peers[i]? = some p' ∧ Runs.run Peer.step p (m.peerEvents i event) = some p'
  new : m'.peers.length = m.peers.length + (m.entered event).toList.length
  entered : ∀ p ∈ m.entered event, m'.peers[m.peers.length]? = some p
  table : ∀ e ∈ m'.connections.entries, e ∈ m.connections.entries ∨
    ∃ p ∈ m.entered event, e = ⟨p.cidKey, m.peers.length⟩

theorem run_onHost {j : Nat} {input : Host.Input} (taken : m.onHost j input = some m')
    (found : m.peers[i]? = some p) :
    ∃ p', m'.peers[i]? = some p' ∧
      Runs.run Peer.step p (if j = i then [.call input] else []) = some p' := by
  obtain ⟨q, h, found', stepped, peers, -⟩ := onHost_cases taken
  rw [peers]
  by_cases same : j = i
  · subst same
    obtain rfl := Option.some.inj (found'.symm.trans found)
    refine ⟨_, List.getElem?_set_self (List.getElem?_eq_some_iff.mp found).1, ?_⟩
    rw [if_pos rfl, Runs.run_cons, Peer.step, stepped]
    rfl
  · refine ⟨p, (List.getElem?_set_ne same).trans found, ?_⟩
    rw [if_neg same]
    rfl

theorem length_onHost {j : Nat} {input : Host.Input} (taken : m.onHost j input = some m') :
    m'.peers.length = m.peers.length := by
  obtain ⟨q, h, -, -, peers, -⟩ := onHost_cases taken
  rw [peers, List.length_set]

theorem advances_of_old (none : m.entered event = none)
    (length : m'.peers.length = m.peers.length)
    (table : m'.connections.entries ⊆ m.connections.entries)
    (old : ∀ i p, m.peers[i]? = some p →
      ∃ p', m'.peers[i]? = some p' ∧ Runs.run Peer.step p (m.peerEvents i event) = some p') :
    PeersAdvance m m' event := by
  refine ⟨old, ?_, ?_, fun e member => .inl (table member)⟩
  · rw [none, length]
    rfl
  · rw [none]
    exact fun p member => absurd member (Option.not_mem_none p)

theorem advances_of_set {j : Nat} {q q' : Peer F} {part : Peer.Event}
    (none : m.entered event = none)
    (parts : ∀ i, m.peerEvents i event = if j = i then [part] else [])
    (found' : m.peers[j]? = some q) (stepped : q.step part = some q')
    (peers : m'.peers = m.peers.set j q')
    (table : m'.connections.entries ⊆ m.connections.entries) : PeersAdvance m m' event := by
  refine advances_of_old none (by rw [peers, List.length_set]) table fun i p found => ?_
  rw [peers, parts]
  by_cases same : j = i
  · subst same
    obtain rfl := Option.some.inj (found'.symm.trans found)
    refine ⟨q', List.getElem?_set_self (List.getElem?_eq_some_iff.mp found).1, ?_⟩
    rw [if_pos rfl, Runs.run_cons, stepped]
    rfl
  · refine ⟨p, (List.getElem?_set_ne same).trans found, ?_⟩
    rw [if_neg same]
    rfl

theorem advances_of_new {q : Peer F} (new : m.entered event = some q)
    (peers : m'.peers = m.peers ++ [q]) (quiet : ∀ i, m.peerEvents i event = [])
    (table : m'.connections = m.connections.insert q.cidKey m.peers.length) :
    PeersAdvance m m' event := by
  refine ⟨fun i p found => ⟨p, ?_, ?_⟩, ?_, ?_, fun e member => ?_⟩
  · rw [peers]
    exact (List.getElem?_append_left (List.getElem?_eq_some_iff.mp found).1).trans found
  · rw [quiet]
    rfl
  · rw [peers, new, List.length_append]
    rfl
  · rw [peers, new]
    rintro p ⟨⟩
    exact List.getElem?_concat_length
  · rw [table] at member
    exact (Tables.mem_of_mem_insert member).symm.imp_right fun same => ⟨q, new, same⟩

theorem advances_datagram (now : Time) (data : List UInt8) (addr : Addr)
    (challenge : Option (Vector UInt8 8)) :
    PeersAdvance m (m.handleDatagram now data addr challenge) (.datagram now data addr challenge) := by
  unfold handleDatagram
  cases decoded : unmarshalPacket data with
  | error =>
    refine advances_of_old (by rw [entered, decoded]) rfl (List.Subset.refl _) fun i p found =>
      ⟨p, found, ?_⟩
    rw [peerEvents, decoded]
    rfl
  | ok pkt =>
    have part (i : Nat) : m.peerEvents i (.datagram now data addr challenge) =
        if pkt.version = versionCurrent ∧ m.connections.lookup pkt.destinationCID = some i then
          [.receive now pkt addr challenge] else [] := by
      rw [peerEvents, decoded]
    dsimp only
    unfold route
    by_cases version : pkt.version ≠ versionCurrent
    · rw [if_pos version]
      refine advances_of_old ?_ rfl (List.Subset.refl _) fun i p found => ⟨p, found, ?_⟩
      · rw [entered, decoded]
        exact if_neg fun both => version both.1
      · rw [part, if_neg fun both => version both.1]
        rfl
    · rw [if_neg version]
      obtain version := Decidable.not_not.mp version
      cases known : m.connections.lookup pkt.destinationCID with
      | some j =>
        refine advances_of_old ?_ (List.length_modify _ _ _) (List.Subset.refl _) fun i p found => ?_
        · rw [entered, decoded]
          exact if_neg fun both => by cases known.symm.trans both.2.1
        · dsimp only
          rw [part, known, List.getElem?_modify, found]
          by_cases same : j = i
          · subst same
            rw [if_pos ⟨version, rfl⟩]
            exact ⟨_, by simp, rfl⟩
          · rw [if_neg fun both => same (Option.some.inj both.2)]
            exact ⟨p, by simp [same], rfl⟩
      | none =>
        have quiet (i : Nat) : m.peerEvents i (.datagram now data addr challenge) = [] := by
          rw [part, known, if_neg fun both => by cases both.2]
        dsimp only
        by_cases syn : pkt.hasSyn
        · rw [if_neg (by simp [syn])]
          refine advances_of_new (q := _) ?_ rfl quiet ?_
          · rw [entered, decoded]
            exact if_pos ⟨version, known, syn⟩
          · rw [Peer.cidKey_foldl_enqueue, Peer.cidKey_enqueue]
            rfl
        · rw [if_pos (by simp [syn])]
          have peers : (m.bufferEarly pkt addr).peers = m.peers := by
            unfold bufferEarly
            split
            · dsimp only
              split <;> rfl
            · rfl
          refine advances_of_old ?_ (congrArg List.length peers) (kept_bufferEarly pkt addr).table
            fun i p found => ⟨p, ?_, ?_⟩
          · rw [entered, decoded]
            exact if_neg fun both => syn both.2.2
          · rw [peers]
            exact found
          · rw [quiet]
            rfl

theorem advances_close (now : Time) : PeersAdvance m (m.close now) (.close now) := by
  have all (entries : List ((_ : ConnectionID) × Nat)) (m : Multiplexer F) :
      let out := (entries.map Sigma.snd).foldl
        (fun m i => (m.onHost i (.close now errorNoError [])).getD m) m
      out.peers.length = m.peers.length ∧ ∀ i p, m.peers[i]? = some p →
        ∃ p', out.peers[i]? = some p' ∧ Runs.run Peer.step p
          ((entries.filter fun e => e.2 = i).map fun _ => .call (.close now errorNoError [])) =
            some p' := by
    induction entries generalizing m with
    | nil => exact ⟨rfl, fun i p found => ⟨p, found, rfl⟩⟩
    | cons e rest ih =>
      dsimp only
      rw [List.map_cons, List.foldl_cons]
      cases taken : m.onHost e.2 (.close now errorNoError []) with
      | none =>
        have absent : m.peers[e.2]? = none := by
          rw [onHost] at taken
          cases found : m.peers[e.2]? with
          | none => rfl
          | some p =>
            rw [found] at taken
            cases taken
        refine ⟨(ih m).1, fun i p found => ?_⟩
        have other : ¬ e.2 = i := fun same => by cases (same ▸ absent).symm.trans found
        rw [List.filter_cons_of_neg (by simpa using other)]
        exact (ih m).2 i p found
      | some m' =>
        refine ⟨(ih m').1.trans (length_onHost taken), fun i p found => ?_⟩
        obtain ⟨p', found', first⟩ := run_onHost taken found
        obtain ⟨q, there, later⟩ := (ih m').2 i p' found'
        refine ⟨q, there, ?_⟩
        by_cases same : e.2 = i
        · rw [if_pos same, Runs.run_cons] at first
          rw [List.filter_cons_of_pos (by simpa using same), List.map_cons, Runs.run_cons]
          obtain ⟨p'', stepped, done⟩ := Option.bind_eq_some_iff.mp first
          rw [Runs.run_nil, Option.some.injEq] at done
          rw [stepped, Option.bind_some, done]
          exact later
        · rw [if_neg same, Runs.run_nil, Option.some.injEq] at first
          rw [List.filter_cons_of_neg (by simpa using same), first]
          exact later
  obtain ⟨length, old⟩ := all m.connections.entries { m with connections := ∅ }
  exact advances_of_old rfl length (kept_close now).table old

/-- An event of the multiplexer is a run of events of each of its connections, by
what each has of it, and may enter one more. -/
theorem advances_step (taken : m.step event = some m') : PeersAdvance m m' event := by
  cases event with
  | datagram now data addr challenge =>
    obtain rfl := Option.some.inj taken
    exact advances_datagram now data addr challenge
  | accept =>
    obtain ⟨out, handed, rfl⟩ := Option.map_eq_some_iff.mp taken
    obtain ⟨i, rest, -, rfl⟩ := accept_eq_some handed
    exact advances_of_old rfl rfl (List.Subset.refl _) fun i p found => ⟨p, found, rfl⟩
  | dial now localCID remoteCID addr =>
    obtain ⟨-, ⟨⟩⟩ := Option.ite_none_right_eq_some.mp taken
    exact advances_of_new rfl rfl (fun i => rfl) rfl
  | take j =>
    simp only [step, take, Option.bind_eq_bind, Option.bind_eq_some_iff] at taken
    obtain ⟨q, found, out⟩ := taken
    split at out
    · rename_i pkt rest inHand inbound
      obtain rfl := Option.some.inj out
      refine advances_of_set rfl (fun i => rfl) found ?_ rfl (List.Subset.refl _)
      rw [Peer.step, inHand, inbound]
    · cases out
  | proceed j now =>
    obtain ⟨q, next, rest, found, inHand, stepped⟩ := proceed_cases taken
    obtain ⟨q', h, found', stepped', peers, kept⟩ := onHost_cases stepped
    have inside := (List.getElem?_eq_some_iff.mp found).1
    obtain rfl := Option.some.inj (found'.symm.trans (List.getElem?_set_self inside))
    refine advances_of_set rfl (fun i => rfl) found ?_ (peers.trans (List.set_set _)) kept.table
    rw [Peer.step, inHand]
    exact Option.map_eq_some_iff.mpr ⟨h, stepped', rfl⟩
  | call j input =>
    obtain ⟨-, stepped⟩ := Option.ite_none_right_eq_some.mp taken
    obtain ⟨q, h, found, stepped, peers, kept⟩ := onHost_cases stepped
    exact advances_of_set rfl (fun i => rfl) found
      (Option.map_eq_some_iff.mpr ⟨h, stepped, rfl⟩) peers kept.table
  | idleRound =>
    obtain rfl := Option.some.inj taken
    exact advances_of_old rfl (congrArg List.length peers_idleRound) kept_idleRound.table
      fun i p found => ⟨p, by rwa [peers_idleRound], rfl⟩
  | close now =>
    obtain rfl := Option.some.inj taken
    exact advances_close now

theorem calls_peerEvents (taken : m.step event = some m') :
    ∀ part ∈ m.peerEvents i event, part.Calls := by
  have one {P : Prop} [Decidable P] {part : Peer.Event} (fine : part.Calls) :
      ∀ other ∈ (if P then [part] else []), other.Calls := by
    split
    · exact List.forall_mem_singleton.mpr fine
    · exact List.forall_mem_nil _
  cases event with
  | datagram now data addr challenge =>
    rw [peerEvents]
    split
    · exact List.forall_mem_nil _
    · exact one trivial
  | take | proceed => exact one trivial
  | call j input => exact one (Option.ite_none_right_eq_some.mp taken).1
  | close now =>
    intro part member
    obtain ⟨e, -, rfl⟩ := List.mem_map.mp member
    exact rfl
  | accept | dial | idleRound => exact List.forall_mem_nil _

/-- A connection of the new state is an old one that has taken its part, or the one
that the event enters. -/
theorem PeersAdvance.cases (advances : PeersAdvance m m' event) {p' : Peer F}
    (found : m'.peers[i]? = some p') :
    (∃ p, m.peers[i]? = some p ∧ Runs.run Peer.step p (m.peerEvents i event) = some p') ∨
      i = m.peers.length ∧ p' ∈ m.entered event := by
  have inside := (List.getElem?_eq_some_iff.mp found).1
  by_cases old : i < m.peers.length
  · obtain ⟨q, there, ran⟩ := advances.old i m.peers[i] (List.getElem?_eq_getElem old)
    obtain rfl := Option.some.inj (there.symm.trans found)
    exact .inl ⟨_, List.getElem?_eq_getElem old, ran⟩
  · right
    have new := advances.new
    cases entered : m.entered event with
    | none =>
      rw [entered] at new
      exact absurd (new.symm ▸ inside : i < m.peers.length + 0) old
    | some q =>
      rw [entered] at new
      obtain rfl : i = m.peers.length := by
        rw [new, Option.toList_some, List.length_singleton] at inside
        omega
      obtain rfl := Option.some.inj ((advances.entered q entered).symm.trans found)
      exact ⟨rfl, rfl⟩

/-- The events of a run that are for the connection `i`, as it sees them. -/
def ownEvents (start : Multiplexer F) (i : Nat) (events : List Event) : List Peer.Event :=
  Runs.output step (fun m => m.peerEvents i) start events

/-- A run of the multiplexer is, for each connection, a run of its own. -/
theorem run_ownEvents {events : List Event} (found : m.peers[i]? = some p)
    (reached : Runs.run step m events = some m') :
    ∃ p', m'.peers[i]? = some p' ∧ Runs.run Peer.step p (m.ownEvents i events) = some p' := by
  induction events generalizing m p with
  | nil =>
    obtain rfl := Option.some.inj reached
    exact ⟨p, found, rfl⟩
  | cons event rest ih =>
    rw [Runs.run_cons] at reached
    obtain ⟨mid, taken, reached⟩ := Option.bind_eq_some_iff.mp reached
    obtain ⟨q, found, first⟩ := (advances_step taken).old i p found
    obtain ⟨p', found, later⟩ := ih found reached
    refine ⟨p', found, ?_⟩
    rw [ownEvents, Runs.output, taken, Option.elim_some, Runs.run_append, first, Option.bind_some]
    exact later

/-- Connections that share a socket do not interfere. The socket's run takes a
connection through the run of its own events, and where it has seen the same ones
it is in the same state, whatever datagrams, calls and timers there were for others
in between, and whichever socket it is on. -/
theorem connections_do_not_interfere {a b a' b' : Multiplexer F} {i j : Nat}
    {first second : List Event} (here : a.peers[i]? = some p) (there : b.peers[j]? = some p)
    (reached : Runs.run step a first = some a') (reached' : Runs.run step b second = some b')
    (same : a.ownEvents i first = b.ownEvents j second) :
    (∃ p', a'.peers[i]? = some p' ∧ Runs.run Peer.step p (a.ownEvents i first) = some p') ∧
      a'.peers[i]? = b'.peers[j]? := by
  obtain ⟨p', found, ran⟩ := run_ownEvents here reached
  refine ⟨⟨p', found, ran⟩, ?_⟩
  obtain ⟨q', found', ran'⟩ := run_ownEvents there reached'
  rw [same, ran'] at ran
  rw [found, found', ran]

def office : Multiplexer ℚ :=
  ({} : Multiplexer ℚ).dial 0 ⟨[1, 2, 3, 4, 5, 6, 7, 8], Nat.le_of_ble_eq_true rfl⟩
    ⟨[8, 7, 6, 5, 4, 3, 2, 1], Nat.le_of_ble_eq_true rfl⟩ "peer"

/-- A second connection is dialled and closed around a PING of the first. -/
def company : List Event :=
  let cid : ConnectionID := ⟨[2, 2, 2, 2, 2, 2, 2, 2], Nat.le_of_ble_eq_true rfl⟩
  let peerCID : ConnectionID := ⟨[3, 3, 3, 3, 3, 3, 3, 3], Nat.le_of_ble_eq_true rfl⟩
  [.dial 1 cid peerCID "other", .call 0 (.ping 2), .call 1 (.close 3 errorNoError [])]

theorem connections_do_not_interfere_office :
    ∃ b c, Runs.run step office [.call 0 (.ping 2)] = some b ∧ Runs.run step office company = some c ∧
      b.peers.length = 1 ∧ c.peers.length = 2 ∧ b.peers[0]? = c.peers[0]? ∧
      ∃ p p', office.peers[0]? = some p ∧ c.peers[0]? = some p' ∧
        Runs.run Peer.step p (office.ownEvents 0 company) = some p' := by
  have alone : (Runs.run step office [.call 0 (.ping 2)]).any (fun m => m.peers.length = 1) = true := by
    decide +kernel
  have crowded : (Runs.run step office company).any (fun m => m.peers.length = 2) = true := by
    decide +kernel
  obtain ⟨b, reached, alone⟩ := Runs.reaches_of_any alone
  obtain ⟨c, reached', crowded⟩ := Runs.reaches_of_any crowded
  obtain ⟨⟨p', found, ran⟩, same⟩ :=
    connections_do_not_interfere (i := 0) (j := 0) rfl rfl reached' reached rfl
  exact ⟨b, c, reached, reached', of_decide_eq_true alone, of_decide_eq_true crowded, same.symm,
    _, p', rfl, found, ran⟩

/-- A call that closes a connection gives a brief reason. -/
def Event.Brief : Event → Prop
  | .call _ input => input.Brief
  | _ => True

omit [Float64 F] in
theorem brief_peerEvents (brief : event.Brief) : ∀ part ∈ m.peerEvents i event, part.Brief := by
  have one {P : Prop} [Decidable P] {part : Peer.Event} (brief : part.Brief) :
      ∀ other ∈ (if P then [part] else []), other.Brief := by
    split
    · exact List.forall_mem_singleton.mpr brief
    · exact List.forall_mem_nil _
  cases event with
  | datagram now data addr challenge =>
    rw [peerEvents]
    split
    · exact List.forall_mem_nil _
    · exact one trivial
  | take j | proceed j now => exact one trivial
  | call j input => exact one brief
  | close now =>
    intro part member
    obtain ⟨e, -, rfl⟩ := List.mem_map.mp member
    exact Nat.le_of_ble_eq_true rfl
  | accept | dial | idleRound => exact List.forall_mem_nil _

/-- How much an event gives to a write. -/
def Event.given : Event → Nat
  | .call _ input => input.given
  | _ => 0

omit [Float64 F] in
theorem given_peerEvents (i : Nat) (event : Event) :
    ((m.peerEvents i event).map Peer.Event.given).sum ≤ event.given := by
  have one {P : Prop} [Decidable P] (part : Peer.Event) :
      ((if P then [part] else []).map Peer.Event.given).sum ≤ part.given := by
    split
    · exact Nat.le_of_eq (Nat.add_zero _)
    · exact Nat.zero_le _
  cases event with
  | datagram now data addr challenge =>
    rw [peerEvents]
    split
    · exact Nat.le_refl 0
    · exact one _
  | take | proceed | call => exact one _
  | close now =>
    refine Nat.le_of_eq (List.sum_eq_zero fun n member => ?_)
    obtain ⟨part, inside, rfl⟩ := List.mem_map.mp member
    obtain ⟨e, -, rfl⟩ := List.mem_map.mp inside
    rfl
  | accept | dial | idleRound => exact Nat.le_refl 0

theorem fit_entered : ∀ p ∈ m.entered event, p.Fit := by
  have enqueued (early : List EarlyPacket) {p : Peer F} (fit : p.Fit) :
      (early.foldl (fun peer ep => peer.enqueue ep.pkt) p).Fit := by
    induction early generalizing p with
    | nil => exact fit
    | cons ep rest ih => exact ih (fit.enqueue ep.pkt)
  cases event with
  | datagram now data addr challenge =>
    rw [entered]
    split
    · exact fun p member => absurd member (Option.not_mem_none p)
    · rename_i pkt decoded
      split
      · rintro p ⟨⟩
        exact enqueued _ ((Peer.fit_newPeer _ _ _ _ _).enqueue pkt)
      · exact fun p member => absurd member (Option.not_mem_none p)
  | dial now localCID remoteCID addr =>
    rintro p ⟨⟩
    have said := Peer.speaks_syn (F := F) localCID remoteCID addr now
    obtain ⟨here, there⟩ := said.ids
    refine ⟨?_, here, List.forall_mem_nil _, List.forall_mem_nil _⟩
    unfold Host.Legible
    rw [here, there]
    exact said
  | accept | take | proceed | call | idleRound | close =>
    exact fun p member => absurd member (Option.not_mem_none p)

/-- Every connection is fit, and the table names each by its own ID. -/
structure Fit (m : Multiplexer F) : Prop where
  peers : ∀ (i : Nat) (p : Peer F), m.peers[i]? = some p → p.Fit
  table : ∀ e ∈ m.connections.entries, ∃ p, m.peers[e.2]? = some p ∧ p.cidKey = e.1

theorem Fit.step (fit : m.Fit) (brief : event.Brief) (taken : m.step event = some m') :
    m'.Fit := by
  have advances := advances_step taken
  refine ⟨fun i p found => ?_, fun e member => ?_⟩
  · rcases advances.cases found with ⟨q, before, ran⟩ | ⟨-, entered⟩
    · exact ((fit.peers i q before).run (brief_peerEvents brief) ran).1
    · exact fit_entered p entered
  · rcases advances.table e member with old | ⟨p, entered, rfl⟩
    · obtain ⟨p, found, key⟩ := fit.table e old
      obtain ⟨p', found', ran⟩ := advances.old e.2 p found
      have same := ((fit.peers e.2 p found).run (brief_peerEvents brief) ran).2
      exact ⟨p', found', same.cidKey.trans key⟩
    · exact ⟨p, advances.entered p entered, rfl⟩

omit [Float64 F] in
theorem fit_new : ({} : Multiplexer F).Fit :=
  ⟨(fun _ _ found => by cases found), List.forall_mem_nil _⟩

theorem fit_run {events : List Event} (brief : ∀ event ∈ events, event.Brief)
    (reached : Runs.run step {} events = some m) : m.Fit :=
  Runs.invariant Fit (fun _ _ _ fit brief taken => fit.step brief taken) fit_new
    (Runs.along_of_forall (fun event member _ => brief event member) _) reached

/-- Whatever reaches the socket, every datagram of every connection fits the path,
is addressed from the connection's ID to its peer's, and decodes to what was meant. -/
theorem wire_decodes {events : List Event} (brief : ∀ event ∈ events, event.Brief)
    (reached : Runs.run step {} events = some m) {i : Nat} {p : Peer F}
    (found : m.peers[i]? = some p) {d : Datagram} (sent : d ∈ p.host.conn.wire) :
    unmarshalPacket (marshalPacket d.packet) = .ok d.packet.arrived ∧
      (marshalPacket d.packet).length ≤ maxDatagramSize ∧
      d.packet.version = versionCurrent ∧ d.packet.sourceCID = p.cidKey ∧
      d.packet.destinationCID = p.host.conn.remoteCID := by
  have fit := (fit_run brief reached).peers i p found
  have legible := fit.legible.wire d sent
  exact ⟨unmarshalPacket_encoded d.packet legible.encodable, legible.fits, legible.version,
    legible.source.trans fit.key, legible.destination⟩

/-- A connection is dialled, and closed with a reason. -/
def parting : List Event :=
  let cid : ConnectionID := ⟨[1, 2, 3, 4, 5, 6, 7, 8], Nat.le_of_ble_eq_true rfl⟩
  let peerCID : ConnectionID := ⟨[8, 7, 6, 5, 4, 3, 2, 1], Nat.le_of_ble_eq_true rfl⟩
  [.dial 0 cid peerCID "peer", .call 0 (.close 1 errorNoError [98, 121, 101])]

theorem wire_decodes_parting :
    ∃ (m : Multiplexer ℚ) (p : Peer ℚ), Runs.run step {} parting = some m ∧
      m.peers[0]? = some p ∧ p.host.conn.wire.length = 2 ∧
      ∀ d ∈ p.host.conn.wire, unmarshalPacket (marshalPacket d.packet) = .ok d.packet.arrived := by
  have two : (Runs.run step ({} : Multiplexer ℚ) parting).any (fun m =>
      m.peers[0]?.any fun p => p.host.conn.wire.length = 2) = true := by
    decide +kernel
  obtain ⟨m, reached, two⟩ := Runs.reaches_of_any two
  obtain ⟨p, found, two⟩ := (Option.any_eq_true _ _).mp two
  have brief : ∀ event ∈ parting, event.Brief := by
    refine List.forall_mem_cons.mpr ⟨trivial, List.forall_mem_singleton.mpr ?_⟩
    exact Nat.le_of_ble_eq_true rfl
  exact ⟨m, p, reached, found, of_decide_eq_true two, fun d sent =>
    (wire_decodes brief reached found sent).1⟩

end Multiplexer

end Udx

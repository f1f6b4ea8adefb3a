import Udx.Intake
import Udx.Multiplexer

set_option autoImplicit false

/- What a peer opens, and what the application accepts: the streams of each
connection and the connections of the multiplexer. Both are entered in a table
and handed over through a queue of sixteen that drops what does not fit. -/

namespace Udx

open Handoff (Desk offer)

namespace Peer

variable {F : Type} [Float64 F] {p : Peer F}

omit [Float64 F] in
@[simp] theorem host_enqueue (pkt : Packet) : (p.enqueue pkt).host = p.host := by
  unfold enqueue
  split <;> rfl

omit [Float64 F] in
@[simp] theorem dialled_enqueue (pkt : Packet) : (p.enqueue pkt).dialled = p.dialled := by
  unfold enqueue
  split <;> rfl

omit [Float64 F] in
theorem foldl_enqueue (early : List EarlyPacket) :
    (early.foldl (fun p ep => p.enqueue ep.pkt) p).host = p.host ∧
      (early.foldl (fun p ep => p.enqueue ep.pkt) p).dialled = p.dialled := by
  induction early generalizing p with
  | nil => exact ⟨rfl, rfl⟩
  | cons ep rest ih =>
    obtain ⟨host, dialled⟩ := ih (p := p.enqueue ep.pkt)
    exact ⟨host.trans (host_enqueue _), dialled.trans (dialled_enqueue _)⟩

theorem incomingStreams_observeAddr (now : Time) (addr : Addr)
    (challenge : Option (Vector UInt8 8)) :
    (p.observeAddr now addr challenge).host.conn.incomingStreams =
      p.host.conn.incomingStreams := by
  have taken : p.host.step (.observeAddr now (some addr) challenge) =
      some (p.observeAddr now addr challenge).host := rfl
  exact Host.incomingStreams_step taken nofun nofun

/-- The streams that wait at the connection with this number. -/
def waiting (peers : List (Peer F)) (i : Nat) : List UInt32 :=
  (peers[i]?).elim [] fun p => p.host.conn.incomingStreams

variable {peers : List (Peer F)}

omit [Float64 F] in
theorem waiting_append (empty : p.host.conn.incomingStreams = []) (i : Nat) :
    waiting (peers ++ [p]) i = waiting peers i := by
  unfold waiting
  rw [List.getElem?_append]
  split
  · rfl
  · rename_i beyond
    rw [List.getElem?_eq_none (Nat.le_of_not_lt beyond)]
    cases found : [p][i - peers.length]? with
    | none => rfl
    | some q =>
      obtain rfl := List.mem_singleton.mp (List.mem_of_getElem? found)
      exact empty

omit [Float64 F] in
theorem waiting_modify {change : Peer F → Peer F}
    (same : ∀ p, (change p).host.conn.incomingStreams = p.host.conn.incomingStreams) (j i : Nat) :
    waiting (peers.modify j change) i = waiting peers i := by
  unfold waiting
  rw [List.getElem?_modify]
  cases peers[i]? with
  | none => rfl
  | some p =>
    show (if j = i then change p else p).host.conn.incomingStreams = _
    split
    · exact same p
    · rfl

omit [Float64 F] in
theorem waiting_set {j : Nat} (found : peers[j]? = some p) (q : Peer F) (i : Nat) :
    waiting (peers.set j q) i =
      if j = i then q.host.conn.incomingStreams else waiting peers i := by
  unfold waiting
  have inside := (List.getElem?_eq_some_iff.mp found).1
  rw [List.getElem?_set, if_pos inside]
  split
  · rename_i same
    subst same
    rfl
  · rfl

section

variable {β : Type} {field : Peer F → β}

omit [Float64 F] in
theorem map_set {j : Nat} (found : peers[j]? = some p) {q : Peer F} (same : field q = field p) :
    (peers.set j q).map field = peers.map field := by
  obtain ⟨inside, here⟩ := List.getElem?_eq_some_iff.mp found
  have value : (peers.map field).get ⟨j, by rwa [List.length_map]⟩ = field q := by
    rw [List.get_eq_getElem, List.getElem_map, here, same]
  rw [List.map_set, ← value, List.get_eq_getElem, List.set_getElem_self]

omit [Float64 F] in
theorem map_modify {change : Peer F → Peer F} (same : ∀ p, field (change p) = field p) (j : Nat) :
    (peers.modify j change).map field = peers.map field := by
  apply List.ext_getElem?
  intro i
  rw [List.getElem?_map, List.getElem?_map, List.getElem?_modify]
  cases peers[i]? with
  | none => rfl
  | some p =>
    show some (field (if j = i then change p else p)) = some (field p)
    split
    · rw [same]
    · rfl

end

end Peer

namespace Multiplexer

variable {F : Type} [Float64 F] {m m' : Multiplexer F}

/-- The connection an event is a step of, and the step. -/
def acts (m : Multiplexer F) : Event → Option (Nat × Host F × Host.Input)
  | .proceed i now => do
    let p ← m.peers[i]?
    let step ← p.inHand.head?
    return (i, p.host, step now)
  | .call i input => do
    let p ← m.peers[i]?
    return (i, p.host, input)
  | _ => none

/-- The streams an event enters for the peer of the connection `i`. -/
def opens (m : Multiplexer F) (event : Event) (i : Nat) : List UInt32 :=
  match m.acts event with
  | some (j, h, input) => if j = i then h.opens input else []
  | none => []

/-- The streams of the connection `i` that an event hands to the application. -/
def accepts (m : Multiplexer F) (event : Event) (i : Nat) : List UInt32 :=
  match m.acts event with
  | some (j, h, input) => if j = i then h.accepts input else []
  | none => []

def Creates (m : Multiplexer F) (pkt : Packet) : Prop :=
  pkt.version = versionCurrent ∧ m.connections.lookup pkt.destinationCID = none ∧
    pkt.hasSyn = true

instance (m : Multiplexer F) (pkt : Packet) : Decidable (m.Creates pkt) :=
  inferInstanceAs (Decidable (_ ∧ _))

def arrivals (m : Multiplexer F) : Event → List Nat
  | .datagram _ data _ _ =>
    match unmarshalPacket data with
    | .error _ => []
    | .ok pkt => if m.Creates pkt then [m.peers.length] else []
  | _ => []

def acceptances (m : Multiplexer F) : Event → List Nat
  | .accept => m.incoming.head?.toList
  | _ => []

/-- No connection is entered or handed over. -/
structure NoneEntered (m m' : Multiplexer F) : Prop where
  flags : m'.peers.map Peer.dialled = m.peers.map Peer.dialled
  table : m'.connections.entries ⊆ m.connections.entries
  incoming : m'.incoming = m.incoming

omit [Float64 F] in
theorem NoneEntered.refl : NoneEntered m m := ⟨rfl, List.Subset.refl _, rfl⟩

omit [Float64 F] in
theorem NoneEntered.trans {m'' : Multiplexer F} (first : NoneEntered m m')
    (second : NoneEntered m' m'') :
    NoneEntered m m'' :=
  ⟨second.flags.trans first.flags, List.Subset.trans second.table first.table,
    second.incoming.trans first.incoming⟩

omit [Float64 F] in
theorem NoneEntered.foldl {α : Type} {change : Multiplexer F → α → Multiplexer F}
    (each : ∀ m x, NoneEntered m (change m x)) (xs : List α) :
    NoneEntered m (xs.foldl change m) := by
  induction xs generalizing m with
  | nil => exact .refl
  | cons x rest ih => exact (each m x).trans ih

omit [Float64 F] in
theorem kept_removeConnection (cidKey : ConnectionID) : NoneEntered m (m.removeConnection cidKey) :=
  ⟨rfl, (List.kerase_sublist _ _).subset, rfl⟩

theorem onHost_cases {i : Nat} {input : Host.Input} (taken : m.onHost i input = some m') :
    ∃ p h, m.peers[i]? = some p ∧ p.host.step input = some h ∧
      m'.peers = m.peers.set i { p with host := h } ∧ NoneEntered m m' := by
  simp only [onHost, Option.bind_eq_bind, Option.bind_eq_some_iff] at taken
  obtain ⟨p, found, h, stepped, out⟩ := taken
  have stays : NoneEntered m { m with peers := m.peers.set i { p with host := h } } :=
    ⟨Peer.map_set found rfl, List.Subset.refl _, rfl⟩
  refine ⟨p, h, found, stepped, ?_⟩
  obtain rfl := Option.some.inj out
  split
  · exact ⟨rfl, stays.trans (kept_removeConnection _)⟩
  · exact ⟨rfl, stays⟩

omit [Float64 F] in
theorem accept_eq_some {out : Multiplexer F × Nat} (handed : m.accept = some out) :
    ∃ i rest, m.incoming = i :: rest ∧ out = ({ m with incoming := rest }, i) := by
  unfold accept at handed
  split at handed
  · cases handed
  · next i rest front => exact ⟨i, rest, front, (Option.some.inj handed).symm⟩

omit [Float64 F] in
theorem take_cases {i : Nat} (taken : m.take i = some m') :
    ∃ p inbound inHand, m.peers[i]? = some p ∧
      m' = { m with peers := m.peers.set i { p with inbound := inbound, inHand := inHand } } := by
  simp only [take, Option.bind_eq_bind, Option.bind_eq_some_iff] at taken
  obtain ⟨p, found, out⟩ := taken
  split at out
  · exact ⟨p, _, _, found, (Option.some.inj out).symm⟩
  · cases out

theorem proceed_cases {i : Nat} {now : Time} (taken : m.proceed i now = some m') :
    ∃ p step rest, m.peers[i]? = some p ∧ p.inHand = step :: rest ∧
      onHost { m with peers := m.peers.set i { p with inHand := rest } } i (step now) =
        some m' := by
  simp only [proceed, Option.bind_eq_bind, Option.bind_eq_some_iff] at taken
  obtain ⟨p, found, out⟩ := taken
  split at out
  · cases out
  · rename_i step rest inHand
    exact ⟨p, step, rest, found, inHand, out⟩

/-- What an event does to the table of connections and to their queue, with the
connections it enters for a peer and those it hands over. -/
inductive Registers (m : Multiplexer F) : Multiplexer F → List Nat → List Nat → Prop
  | keep {m' : Multiplexer F} (kept : NoneEntered m m') : Registers m m' [] []
  | accept {m' : Multiplexer F} (i : Nat) (front : m.incoming = i :: m'.incoming)
    (peers : m'.peers = m.peers) (table : m'.connections = m.connections) :
    Registers m m' [] [i]
  | enter {m' : Multiplexer F} (dialled : Bool)
    (flags : m'.peers.map Peer.dialled = m.peers.map Peer.dialled ++ [dialled])
    (table : ∀ e ∈ m'.connections.entries, e ∈ m.connections.entries ∨ e.2 = m.peers.length)
    (incoming : m'.incoming =
      if dialled then m.incoming else offer 16 m.incoming m.peers.length) :
    Registers m m' (if dialled then [] else [m.peers.length]) []

omit [Float64 F] in
theorem new_or_old_of_mem_insert {table : AList (fun _ : ConnectionID => Nat)}
    {cidKey : ConnectionID} {i : Nat} {e : (_ : ConnectionID) × Nat}
    (member : e ∈ (table.insert cidKey i).entries) : e ∈ table.entries ∨ e.2 = i := by
  rcases Tables.mem_of_mem_insert member with new | old
  · exact .inr (by rw [new])
  · exact .inl old

omit [Float64 F] in
theorem kept_bufferEarly (pkt : Packet) (addr : Addr) : NoneEntered m (m.bufferEarly pkt addr) := by
  unfold bufferEarly
  split
  · dsimp only
    split
    · exact ⟨rfl, List.Subset.refl _, rfl⟩
    · exact .refl
  · exact .refl

theorem kept_onHost_getD (i : Nat) (input : Host.Input) :
    NoneEntered m ((m.onHost i input).getD m) := by
  cases taken : m.onHost i input with
  | none => exact .refl
  | some m' =>
    obtain ⟨-, -, -, -, -, kept⟩ := onHost_cases taken
    exact kept

omit [Float64 F] in
theorem kept_idleRound : NoneEntered m m.idleRound :=
  .foldl (fun m e => by
    split
    · exact kept_removeConnection _
    · exact .refl) _

theorem kept_close (now : Time) : NoneEntered m (m.close now) := by
  have emptied : NoneEntered m { m with connections := ∅ } := ⟨rfl, List.nil_subset _, rfl⟩
  exact emptied.trans (.foldl (fun m i => kept_onHost_getD i _) _)

theorem registers_route (now : Time) (pkt : Packet) (addr : Addr)
    (challenge : Option (Vector UInt8 8)) :
    Registers m (m.route now pkt addr challenge)
      (if m.Creates pkt then [m.peers.length] else []) [] := by
  unfold route
  split
  · rename_i version
    rw [if_neg fun creates => version creates.1]
    exact .keep .refl
  · rename_i version
    split
    · rename_i i found
      rw [if_neg fun creates : m.Creates pkt => by cases found.symm.trans creates.2.1]
      refine .keep ⟨Peer.map_modify (fun p => ?_) i, List.Subset.refl _, rfl⟩
      exact Peer.dialled_enqueue pkt
    · rename_i missing
      split
      · rename_i plain
        rw [if_neg fun creates : m.Creates pkt => by rw [creates.2.2] at plain; cases plain]
        exact .keep (kept_bufferEarly pkt addr)
      · rename_i syn
        have creates : m.Creates pkt :=
          ⟨Decidable.not_not.mp version, missing, by simpa using syn⟩
        rw [if_pos creates]
        refine .enter false ?_ ?_ rfl
        · show (m.peers ++ [_]).map Peer.dialled = _
          rw [List.map_append, List.map_singleton, (Peer.foldl_enqueue _).2, Peer.dialled_enqueue]
          rfl
        · exact fun e member => new_or_old_of_mem_insert member

theorem step_registers {event : Event} (taken : m.step event = some m') :
    Registers m m' (m.arrivals event) (m.acceptances event) := by
  cases event with
  | datagram now data addr challenge =>
    obtain rfl := Option.some.inj taken
    show Registers m (m.handleDatagram now data addr challenge) (match unmarshalPacket data with
      | .error _ => [] | .ok pkt => if m.Creates pkt then [m.peers.length] else []) []
    unfold handleDatagram
    cases unmarshalPacket data with
    | error => exact .keep .refl
    | ok pkt => exact registers_route now pkt addr challenge
  | accept =>
    obtain ⟨out, handed, rfl⟩ := Option.map_eq_some_iff.mp taken
    obtain ⟨i, rest, front, rfl⟩ := accept_eq_some handed
    have first : m.acceptances .accept = [i] := by
      rw [acceptances, front]
      rfl
    rw [first]
    exact .accept i front rfl rfl
  | dial now localCID remoteCID addr =>
    rw [step] at taken
    split at taken
    · obtain rfl := Option.some.inj taken
      refine .enter true ?_ ?_ rfl
      · exact List.map_append
      · exact fun e member => new_or_old_of_mem_insert member
    · cases taken
  | take i =>
    obtain ⟨p, inbound, inHand, found, rfl⟩ := take_cases taken
    exact .keep ⟨Peer.map_set found rfl, List.Subset.refl _, rfl⟩
  | proceed i now =>
    obtain ⟨p, step, rest, found, -, stepped⟩ := proceed_cases taken
    obtain ⟨-, -, -, -, -, kept⟩ := onHost_cases stepped
    have stays : NoneEntered m { m with peers := m.peers.set i { p with inHand := rest } } :=
      ⟨Peer.map_set found rfl, List.Subset.refl _, rfl⟩
    exact .keep (stays.trans kept)
  | call i input =>
    rw [step] at taken
    split at taken
    · obtain ⟨-, -, -, -, -, kept⟩ := onHost_cases taken
      exact .keep kept
    · cases taken
  | idleRound =>
    obtain rfl := Option.some.inj taken
    exact .keep kept_idleRound
  | close now =>
    obtain rfl := Option.some.inj taken
    exact .keep (kept_close now)

omit [Float64 F] in
theorem acts_found {event : Event} {j : Nat} {h : Host F} {input : Host.Input}
    (acts : m.acts event = some (j, h, input)) : ∃ p, m.peers[j]? = some p ∧ p.host = h := by
  cases event with
  | proceed i now =>
    simp only [Multiplexer.acts, Option.bind_eq_bind, Option.bind_eq_some_iff] at acts
    obtain ⟨p, found, step, -, out⟩ := acts
    cases out
    exact ⟨p, found, rfl⟩
  | call i input =>
    simp only [Multiplexer.acts, Option.bind_eq_bind, Option.bind_eq_some_iff] at acts
    obtain ⟨p, found, out⟩ := acts
    cases out
    exact ⟨p, found, rfl⟩
  | datagram | accept | dial | take | idleRound | close => cases acts

theorem desk_acting {event : Event} {j : Nat} {p : Peer F} {input : Host.Input} {h : Host F}
    {peers : List (Peer F)} (acts : m.acts event = some (j, p.host, input))
    (found : m.peers[j]? = some p) (stepped : p.host.step input = some h)
    (waits : ∀ i, Peer.waiting peers i =
      if j = i then h.conn.incomingStreams else Peer.waiting m.peers i)
    (i : Nat) (opened accepted : List UInt32) :
    Desk.Step 16 ⟨opened, Peer.waiting m.peers i, accepted⟩
      ⟨opened ++ m.opens event i, Peer.waiting peers i, accepted ++ m.accepts event i⟩ := by
  rw [opens, accepts, acts, waits i]
  dsimp only
  by_cases same : j = i
  · subst same
    have here : Peer.waiting m.peers j = p.host.conn.incomingStreams := by
      rw [Peer.waiting, found]
      rfl
    rw [if_pos rfl, if_pos rfl, if_pos rfl, here]
    exact Host.desk_step stepped opened accepted
  · rw [if_neg same, if_neg same, if_neg same, List.append_nil, List.append_nil]
    exact .rest _

omit [Float64 F] in
theorem desk_resting {event : Event} {peers : List (Peer F)} (rests : m.acts event = none)
    {i : Nat} (waits : Peer.waiting peers i = Peer.waiting m.peers i)
    (opened accepted : List UInt32) :
    Desk.Step 16 ⟨opened, Peer.waiting m.peers i, accepted⟩
      ⟨opened ++ m.opens event i, Peer.waiting peers i, accepted ++ m.accepts event i⟩ := by
  rw [opens, accepts, rests, waits]
  dsimp only
  rw [List.append_nil, List.append_nil]
  exact .rest _

theorem waiting_route (now : Time) (pkt : Packet) (addr : Addr)
    (challenge : Option (Vector UInt8 8)) (i : Nat) :
    Peer.waiting (m.route now pkt addr challenge).peers i = Peer.waiting m.peers i := by
  unfold route
  split
  · rfl
  · split
    · refine Peer.waiting_modify (fun p => ?_) _ i
      rw [Peer.host_enqueue]
      exact Peer.incomingStreams_observeAddr now addr challenge
    · split
      · unfold bufferEarly
        split
        · dsimp only
          split <;> rfl
        · rfl
      · refine Peer.waiting_append ?_ i
        rw [(Peer.foldl_enqueue _).1, Peer.host_enqueue]
        rfl

theorem waiting_close (now : Time) (i : Nat) :
    Peer.waiting (m.close now).peers i = Peer.waiting m.peers i := by
  have each (m : Multiplexer F) (j : Nat) :
      Peer.waiting ((m.onHost j (.close now errorNoError [])).getD m).peers i =
        Peer.waiting m.peers i := by
    cases taken : m.onHost j (.close now errorNoError []) with
    | none => rfl
    | some m' =>
      obtain ⟨p, h, found, stepped, peers, -⟩ := onHost_cases taken
      show Peer.waiting m'.peers i = _
      rw [peers, Peer.waiting_set found]
      split
      · rename_i same
        subst same
        rw [Peer.waiting, found]
        exact Host.incomingStreams_step stepped nofun nofun
      · rfl
  have all (js : List Nat) (m : Multiplexer F) :
      Peer.waiting (js.foldl
        (fun m j => (m.onHost j (.close now errorNoError [])).getD m) m).peers i =
        Peer.waiting m.peers i := by
    induction js generalizing m with
    | nil => rfl
    | cons j rest ih => exact (ih _).trans (each m j)
  exact all _ _

omit [Float64 F] in
theorem peers_idleRound : m.idleRound.peers = m.peers := by
  have all (entries : List ((_ : ConnectionID) × Nat)) (m : Multiplexer F) :
      (entries.foldl (fun m e => if m.isClosed e.2 then m.removeConnection e.1 else m) m).peers =
        m.peers := by
    induction entries generalizing m with
    | nil => rfl
    | cons e rest ih =>
      refine (ih _).trans ?_
      dsimp only
      split <;> rfl
  exact all _ m

/-- What an event does at the desk of the connection `i`. -/
theorem step_desk {event : Event} (taken : m.step event = some m') (i : Nat)
    (opened accepted : List UInt32) :
    Desk.Step 16 ⟨opened, Peer.waiting m.peers i, accepted⟩
      ⟨opened ++ m.opens event i, Peer.waiting m'.peers i, accepted ++ m.accepts event i⟩ := by
  cases event with
  | datagram now data addr challenge =>
    obtain rfl := Option.some.inj taken
    refine desk_resting rfl ?_ opened accepted
    unfold handleDatagram
    cases unmarshalPacket data with
    | error => rfl
    | ok pkt => exact waiting_route now pkt addr challenge i
  | accept =>
    obtain ⟨out, handed, rfl⟩ := Option.map_eq_some_iff.mp taken
    obtain ⟨i, rest, -, rfl⟩ := accept_eq_some handed
    exact desk_resting rfl rfl opened accepted
  | dial now localCID remoteCID addr =>
    rw [step] at taken
    split at taken
    · obtain rfl := Option.some.inj taken
      refine desk_resting rfl (Peer.waiting_append ?_ i) opened accepted
      exact congrArg Intake.incomingStreams (Connection.intake_sendFrames
        (c := (Peer.newPeer localCID remoteCID addr true now : Peer F).host.conn) now
        [.stream ⟨false, true, 0, []⟩])
    · cases taken
  | take j =>
    obtain ⟨p, inbound, inHand, found, rfl⟩ := take_cases taken
    refine desk_resting rfl ?_ opened accepted
    rw [Peer.waiting_set found]
    split
    · rename_i same
      rw [← same, Peer.waiting, found]
      rfl
    · rfl
  | proceed j now =>
    obtain ⟨p, step, rest, found, inHand, stepped⟩ := proceed_cases taken
    obtain ⟨q, h, found', stepped', peers, -⟩ := onHost_cases stepped
    have same : q = { p with inHand := rest } := by
      rw [List.getElem?_set_self (List.getElem?_eq_some_iff.mp found).1] at found'
      exact (Option.some.inj found').symm
    subst same
    have acts : m.acts (.proceed j now) = some (j, p.host, step now) := by
      rw [acts, found]
      simp [inHand]
    refine desk_acting acts found stepped' (fun i => ?_) i opened accepted
    rw [peers, List.set_set, Peer.waiting_set found]
  | call j input =>
    rw [step] at taken
    split at taken
    · obtain ⟨p, h, found, stepped, peers, -⟩ := onHost_cases taken
      have acts : m.acts (.call j input) = some (j, p.host, input) := by
        rw [acts, found]
        rfl
      refine desk_acting acts found stepped (fun i => ?_) i opened accepted
      rw [peers, Peer.waiting_set found]
    · cases taken
  | idleRound =>
    obtain rfl := Option.some.inj taken
    refine desk_resting rfl ?_ opened accepted
    rw [peers_idleRound]
  | close now =>
    obtain rfl := Option.some.inj taken
    exact desk_resting rfl (waiting_close now i) opened accepted

theorem handleDatagram_encoded {pkt : Packet} (encodable : pkt.Encodable) (now : Time)
    (addr : Addr) (challenge : Option (Vector UInt8 8)) :
    m.handleDatagram now (marshalPacket pkt) addr challenge =
      m.route now { pkt with wireLen := (marshalPacket pkt).length } addr challenge := by
  rw [handleDatagram, unmarshalPacket_encoded pkt encodable]

end Multiplexer

/-- A multiplexer with the connections and streams its peers have opened and the
application has accepted so far. -/
structure Register (F : Type) where
  mux : Multiplexer F := {}
  arrived : List Nat := []
  accepted : List Nat := []
  opened : Nat → List UInt32 := fun _ => []
  acceptedStreams : Nat → List UInt32 := fun _ => []

namespace Register

variable {F : Type} [Float64 F] {r r' : Register F} {event : Multiplexer.Event}

def step (r : Register F) (event : Multiplexer.Event) : Option (Register F) := do
  let mux ← r.mux.step event
  return {
    mux := mux
    arrived := r.arrived ++ r.mux.arrivals event
    accepted := r.accepted ++ r.mux.acceptances event
    opened := fun i => r.opened i ++ r.mux.opens event i
    acceptedStreams := fun i => r.acceptedStreams i ++ r.mux.accepts event i }

/-- What is opened finds room in its queue. -/
def Roomy (r : Register F) (event : Multiplexer.Event) : Prop :=
  (r.mux.arrivals event ≠ [] → r.mux.incoming.length < 16) ∧
    ∀ out ∈ r.mux.acts event, out.2.1.opens out.2.2 ≠ [] → out.2.1.conn.incomingStreams.length < 16

instance (r : Register F) (event : Multiplexer.Event) : Decidable (r.Roomy event) :=
  inferInstanceAs (Decidable (_ ∧ ∀ out ∈ r.mux.acts event, _ → _))

/-- The streams opened at the connection `i`, on their way to the application. -/
def streamDesk (r : Register F) (i : Nat) : Desk UInt32 :=
  ⟨r.opened i, Peer.waiting r.mux.peers i, r.acceptedStreams i⟩

def connectionDesk (r : Register F) : Desk Nat := ⟨r.arrived, r.mux.incoming, r.accepted⟩

theorem step_cases (taken : r.step event = some r') :
    ∃ mux, r.mux.step event = some mux ∧ r'.mux = mux ∧
      r'.arrived = r.arrived ++ r.mux.arrivals event ∧
      r'.accepted = r.accepted ++ r.mux.acceptances event ∧
      (∀ i, r'.opened i = r.opened i ++ r.mux.opens event i) ∧
      ∀ i, r'.acceptedStreams i = r.acceptedStreams i ++ r.mux.accepts event i := by
  simp only [step, Option.bind_eq_bind, Option.bind_eq_some_iff] at taken
  obtain ⟨mux, stepped, out⟩ := taken
  obtain rfl := Option.some.inj out
  exact ⟨mux, stepped, rfl, rfl, rfl, fun _ => rfl, fun _ => rfl⟩

/-- A connection that is registered and was not dialled has arrived, once. -/
structure Entered (r : Register F) : Prop where
  placed : ∀ e ∈ r.mux.connections.entries, e.2 < (r.mux.peers.map Peer.dialled).length ∧
    ((r.mux.peers.map Peer.dialled)[e.2]? = some false → e.2 ∈ r.arrived)
  nodup : r.arrived.Nodup
  below : ∀ i ∈ r.arrived, i < (r.mux.peers.map Peer.dialled).length

theorem Entered.step (entered : r.Entered) (taken : r.step event = some r') :
    r'.Entered := by
  obtain ⟨mux, stepped, same, arrived, -, -, -⟩ := step_cases taken
  have registers := Multiplexer.step_registers stepped
  rw [← same] at registers
  generalize r.mux.arrivals event = arrivals at registers arrived
  generalize r.mux.acceptances event = acceptances at registers
  cases registers with
  | keep kept =>
    rw [List.append_nil] at arrived
    refine ⟨fun e member => ?_, arrived ▸ entered.nodup, ?_⟩
    · rw [kept.flags, arrived]
      exact entered.placed e (kept.table member)
    · rw [kept.flags, arrived]
      exact entered.below
  | accept i front peers table =>
    rw [List.append_nil] at arrived
    refine ⟨?_, arrived ▸ entered.nodup, ?_⟩
    · rw [table, peers, arrived]
      exact entered.placed
    · rw [peers, arrived]
      exact entered.below
  | enter dialled flags table incoming =>
    refine ⟨fun e member => ?_, ?_, ?_⟩
    · rw [flags, arrived]
      rcases table e member with old | new
      · obtain ⟨inside, listed⟩ := entered.placed e old
        rw [List.getElem?_append_left inside]
        refine ⟨?_, fun plain => List.mem_append_left _ (listed plain)⟩
        rw [List.length_append]
        exact Nat.lt_add_right _ inside
      · rw [new, List.length_append, List.length_map]
        refine ⟨Nat.lt_succ_self _, fun plain => ?_⟩
        rw [List.getElem?_append_right (by rw [List.length_map]), List.length_map, Nat.sub_self]
          at plain
        obtain rfl := Option.some.inj plain
        exact List.mem_append_right _ (List.mem_singleton_self _)
    · rw [arrived]
      have fresh : r.mux.peers.length ∉ r.arrived := fun old => by
        have := entered.below _ old
        rw [List.length_map] at this
        exact Nat.lt_irrefl _ this
      cases dialled with
      | true => simpa using entered.nodup
      | false =>
        rw [if_neg Bool.false_ne_true]
        exact List.nodup_append.mpr ⟨entered.nodup, List.nodup_singleton _, fun a old b new => by
          rw [List.mem_singleton.mp new]
          exact fun same => fresh (same ▸ old)⟩
    · rw [arrived, flags, List.length_append]
      intro i member
      rcases List.mem_append.mp member with old | new
      · exact Nat.lt_add_right _ (entered.below i old)
      · rw [List.length_map]
        split at new
        · cases new
        · rw [List.mem_singleton.mp new]
          exact Nat.lt_succ_self _

omit [Float64 F] in
theorem Roomy.opens (roomy : r.Roomy event) {i : Nat}
    (opens : r.mux.opens event i ≠ []) : (Peer.waiting r.mux.peers i).length < 16 := by
  unfold Multiplexer.opens at opens
  split at opens
  · rename_i j h input acts
    split at opens
    · rename_i same
      subst same
      obtain ⟨p, found, rfl⟩ := Multiplexer.acts_found acts
      rw [Peer.waiting, found]
      exact roomy.2 _ acts opens
    · exact absurd rfl opens
  · exact absurd rfl opens

theorem inOrder_streamDesk {i : Nat} (inOrder : (r.streamDesk i).InOrder)
    (roomy : r.Roomy event) (taken : r.step event = some r') : (r'.streamDesk i).InOrder := by
  obtain ⟨mux, stepped, same, -, -, opened, accepted⟩ := step_cases taken
  have moves := Multiplexer.step_desk stepped i (r.opened i) (r.acceptedStreams i)
  rw [← opened, ← accepted, ← same] at moves
  refine inOrder.step moves fun grown => roomy.opens fun nothing => grown ?_
  show r'.opened i = r.opened i
  rw [opened, nothing, List.append_nil]

theorem inOrder_connectionDesk (inOrder : r.connectionDesk.InOrder)
    (roomy : r.Roomy event) (taken : r.step event = some r') : r'.connectionDesk.InOrder := by
  obtain ⟨mux, stepped, same, arrived, accepted, -, -⟩ := step_cases taken
  have registers := Multiplexer.step_registers stepped
  rw [← same] at registers
  have room := roomy.1
  generalize r.mux.arrivals event = arrivals at registers arrived room
  generalize r.mux.acceptances event = acceptances at registers accepted
  have moves : Desk.Step 16 r.connectionDesk r'.connectionDesk := by
    unfold connectionDesk
    rw [arrived, accepted]
    cases registers with
    | keep kept =>
      rw [List.append_nil, List.append_nil, kept.incoming]
      exact .rest _
    | accept i front =>
      rw [List.append_nil]
      exact .take ⟨r.arrived, r.mux.incoming, r.accepted⟩ i _ front
    | enter dialled flags table incoming =>
      rw [List.append_nil, incoming]
      cases dialled with
      | true =>
        rw [if_pos rfl, if_pos rfl, List.append_nil]
        exact .rest _
      | false => exact .enter ⟨r.arrived, r.mux.incoming, r.accepted⟩ r.mux.peers.length
  refine inOrder.step moves fun grown => room fun nothing => grown ?_
  show r'.arrived = r.arrived
  rw [arrived, nothing, List.append_nil]

/-- In every run in which what is opened finds room in its queue, the streams
each peer has opened are those that have been accepted, in order, and those that
still wait; and every connection that is registered and was not dialled has been
accepted once or still waits. -/
theorem accepted_once {events : List Multiplexer.Event}
    (roomy : Runs.Along step Roomy ({} : Register F) events)
    (reached : Runs.run step ({} : Register F) events = some r) :
    (∀ i, r.opened i = r.acceptedStreams i ++ Peer.waiting r.mux.peers i) ∧
      ∀ cidKey i p, r.mux.connections.lookup cidKey = some i → r.mux.peers[i]? = some p →
        p.dialled = false → r.accepted.count i + r.mux.incoming.count i = 1 := by
  have holds : (∀ i, (r.streamDesk i).InOrder) ∧ r.connectionDesk.InOrder ∧ r.Entered := by
    refine Runs.invariant
      (fun r : Register F => (∀ i, (r.streamDesk i).InOrder) ∧ r.connectionDesk.InOrder ∧ r.Entered)
      ?_ ?_ roomy reached
    · rintro r event r' ⟨streams, connections, entered⟩ roomy taken
      exact ⟨fun i => inOrder_streamDesk (streams i) roomy taken,
        inOrder_connectionDesk connections roomy taken, entered.step taken⟩
    · refine ⟨fun _ => rfl, rfl, ?_, List.nodup_nil, ?_⟩
      · exact fun _ member => absurd member List.not_mem_nil
      · exact fun _ member => absurd member List.not_mem_nil
  obtain ⟨streams, connections, entered⟩ := holds
  refine ⟨streams, fun cidKey i p registered found plain => ?_⟩
  have arrived : i ∈ r.arrived := by
    refine (entered.placed ⟨cidKey, i⟩ (Tables.mem_entries_iff.mpr registered)).2 ?_
    rw [List.getElem?_map, found]
    exact congrArg some plain
  have once := List.count_eq_one_of_mem entered.nodup arrived
  have split : r.arrived = r.accepted ++ r.mux.incoming := connections
  rwa [split, List.count_append] at once

/-- A peer's first packet on the stream `id`, for the connection `cid`. -/
def syn (cid : UInt8) (id : UInt32) : Packet :=
  { version := versionCurrent, destinationCID := ⟨[cid], Nat.le_add_left 1 19⟩
    sourceCID := ⟨[], Nat.zero_le _⟩, sequence := id, destinationStreamID := 0
    sourceStreamID := id, frames := [.stream ⟨false, true, 0, [7]⟩] }

theorem encodable_syn (cid : UInt8) (id : UInt32) : (syn cid id).Encodable :=
  ⟨by simp [syn, Frame.Encodable], by simp [syn]⟩

def arrival (pkt : Packet) : Multiplexer.Event := .datagram 0 (marshalPacket pkt) "peer" none

/-- What its arrival does once it is decoded. -/
def receive (r : Register F) (pkt : Packet) : Register F :=
  let pkt := { pkt with wireLen := (marshalPacket pkt).length }
  { r with
    mux := r.mux.route 0 pkt "peer" none
    arrived := r.arrived ++ if r.mux.Creates pkt then [r.mux.peers.length] else [] }

theorem step_arrival {pkt : Packet} (encodable : pkt.Encodable) :
    r.step (arrival pkt) = some (r.receive pkt) := by
  have decoded := unmarshalPacket_encoded pkt encodable
  have routed : r.mux.handleDatagram 0 (marshalPacket pkt) "peer" none =
      (r.receive pkt).mux := Multiplexer.handleDatagram_encoded encodable 0 "peer" none
  have created : r.mux.arrivals (arrival pkt) =
      if r.mux.Creates { pkt with wireLen := (marshalPacket pkt).length } then
        [r.mux.peers.length] else [] := by
    show (match unmarshalPacket (marshalPacket pkt) with
      | .error _ => [] | .ok pkt => if r.mux.Creates pkt then [r.mux.peers.length] else []) = _
    rw [decoded]
  have nothing (log : Nat → List UInt32) : (fun i => log i ++ []) = log :=
    funext fun i => List.append_nil _
  show some (Register.mk (r.mux.handleDatagram 0 (marshalPacket pkt) "peer" none)
    (r.arrived ++ r.mux.arrivals (arrival pkt)) (r.accepted ++ []) (fun i => r.opened i ++ [])
    (fun i => r.acceptedStreams i ++ [])) = _
  rw [routed, created, List.append_nil, nothing, nothing]
  rfl

theorem run_arrivals {pkts : List Packet} (encodable : ∀ pkt ∈ pkts, pkt.Encodable)
    (r : Register F) (rest : List Multiplexer.Event) :
    Runs.run step r (pkts.map arrival ++ rest) = Runs.run step (pkts.foldl receive r) rest := by
  induction pkts generalizing r with
  | nil => rfl
  | cons pkt pkts ih =>
    obtain ⟨here, later⟩ := List.forall_mem_cons.mp encodable
    rw [List.map_cons, List.cons_append, Runs.run_cons, step_arrival here]
    exact ih later (r.receive pkt)

/-- The first connection handles the next packet that has arrived for it. -/
def handled : List Multiplexer.Event := .take 0 :: List.replicate 3 (.proceed 0 0)

/-- A peer opens a connection and a stream, and both are accepted. -/
def greeted : List Multiplexer.Event := handled ++ [.accept, .call 0 .acceptStream]

theorem greeted_accepted :
    Runs.Along step Roomy ({} : Register ℚ) (arrival (syn 0 1) :: greeted) ∧
      ∃ r : Register ℚ, Runs.run step {} (arrival (syn 0 1) :: greeted) = some r ∧
        r.opened 0 = [2] ∧ r.opened 0 = r.acceptedStreams 0 ++ Peer.waiting r.mux.peers 0 := by
  have first : step ({} : Register ℚ) (arrival (syn 0 1)) = some (receive {} (syn 0 1)) :=
    step_arrival (encodable_syn 0 1)
  have roomy : Runs.Along step Roomy ({} : Register ℚ) (arrival (syn 0 1) :: greeted) := by
    refine ⟨⟨fun _ => Nat.zero_lt_succ _, fun _ absent => by cases absent⟩, fun r taken => ?_⟩
    obtain rfl := Option.some.inj (first.symm.trans taken)
    decide +kernel
  have passes : (Runs.run step (receive ({} : Register ℚ) (syn 0 1)) greeted).any
      (fun r => decide (r.opened 0 = [2])) = true := by decide +kernel
  obtain ⟨r, later, opened⟩ := Runs.reaches_of_any passes
  have reached : Runs.run step ({} : Register ℚ) (arrival (syn 0 1) :: greeted) = some r := by
    rw [Runs.run_cons, first]
    exact later
  exact ⟨roomy, r, reached, of_decide_eq_true opened, (accepted_once roomy reached).1 0⟩

/-- Seventeen peers open connections, and the first of them sixteen streams
more. -/
def crowd : List Packet :=
  (List.range 17).map (fun i => syn (.ofNat i) 1) ++
    (List.range 16).map fun i => syn 0 (.ofNat (2 * i + 3))

/-- The first connection handles everything before the application accepts. -/
def overrun : List Multiplexer.Event := crowd.map arrival ++ (List.replicate 17 handled).flatten

/-- The last connection and the last stream can never be accepted. -/
theorem overrun_unreachable :
    ∃ r : Register ℚ, Runs.run step {} overrun = some r ∧
      (∃ p, r.mux.connections.lookup ⟨[16], Nat.le_add_left 1 19⟩ = some 16 ∧
        r.mux.peers[16]? = some p ∧ p.dialled = false ∧ 16 ∉ r.accepted ∧
        16 ∉ r.mux.incoming) ∧
      34 ∈ r.opened 0 ∧ 34 ∉ r.acceptedStreams 0 ∧ 34 ∉ Peer.waiting r.mux.peers 0 := by
  have encodable : ∀ pkt ∈ crowd, pkt.Encodable := by
    intro pkt member
    rcases List.mem_append.mp member with opens | more
    · obtain ⟨i, -, rfl⟩ := List.mem_map.mp opens
      exact encodable_syn _ _
    · obtain ⟨i, -, rfl⟩ := List.mem_map.mp more
      exact encodable_syn _ _
  have passes : (Runs.run step (crowd.foldl receive ({} : Register ℚ))
      (List.replicate 17 handled).flatten).any (fun r =>
        decide (r.mux.connections.lookup ⟨[16], Nat.le_add_left 1 19⟩ = some 16) &&
          r.mux.peers[16]?.any (fun p => !p.dialled) &&
          decide (16 ∉ r.accepted ∧ 16 ∉ r.mux.incoming ∧ 34 ∈ r.opened 0 ∧
            34 ∉ r.acceptedStreams 0 ∧ 34 ∉ Peer.waiting r.mux.peers 0)) = true := by
    decide +kernel
  obtain ⟨r, later, holds⟩ := Runs.reaches_of_any passes
  simp only [Bool.and_eq_true, decide_eq_true_eq, Option.any_eq_true] at holds
  obtain ⟨⟨registered, p, found, plain⟩, accepted, incoming, streams⟩ := holds
  refine ⟨r, (run_arrivals encodable {} _).trans later, ⟨p, registered, found, ?_, accepted,
    incoming⟩, streams⟩
  rwa [Bool.not_eq_true'] at plain

end Register

end Udx

import Udx.Acceptance

set_option autoImplicit false

/- The packets that arrive before their connection's SYN: how many are kept, which,
and for whom. -/

namespace Udx

/-- A packet as it is decoded again. -/
def Packet.arrived (pkt : Packet) : Packet :=
  { pkt with wireLen := (marshalPacket pkt).length }

namespace Peer

variable {F : Type} {p : Peer F}

@[simp] theorem cidKey_enqueue (pkt : Packet) : (p.enqueue pkt).cidKey = p.cidKey := by
  unfold enqueue
  split <;> rfl

theorem cidKey_foldl_enqueue (early : List EarlyPacket) :
    (early.foldl (fun p ep => p.enqueue ep.pkt) p).cidKey = p.cidKey := by
  induction early generalizing p with
  | nil => rfl
  | cons ep rest ih => exact ih.trans (cidKey_enqueue _)

theorem inbound_foldl_enqueue {early : List EarlyPacket}
    (room : p.inbound.length + early.length ≤ inboundQueue) :
    (early.foldl (fun p ep => p.enqueue ep.pkt) p).inbound =
      p.inbound ++ early.map EarlyPacket.pkt := by
  induction early generalizing p with
  | nil => rw [List.map_nil, List.append_nil, List.foldl_nil]
  | cons ep rest ih =>
    rw [List.length_cons] at room
    have kept : (p.enqueue ep.pkt).inbound = p.inbound ++ [ep.pkt] := by
      rw [enqueue, if_pos (by omega)]
    rw [List.foldl_cons, ih, kept, List.map_cons, List.append_assoc, List.singleton_append]
    rw [kept, List.length_append, List.length_singleton]
    omega

end Peer

namespace Multiplexer

variable {F : Type} [Float64 F] {m m' : Multiplexer F} {event : Event}

/-- The packet an event brings that has no SYN and finds no connection. -/
def early (m : Multiplexer F) : Event → Option EarlyPacket
  | .datagram _ data addr _ =>
    match unmarshalPacket data with
    | .error _ => none
    | .ok pkt =>
      if pkt.version = versionCurrent ∧ m.connections.lookup pkt.destinationCID = none ∧
          pkt.hasSyn = false then
        some ⟨pkt, addr⟩
      else none
  | _ => none

section

variable {P : EarlyPacket → Prop}

omit [Float64 F] in
theorem forall_early {ep : EarlyPacket} (arrives : m.early event = some ep) :
    (∀ ep ∈ m.early event, P ep) ↔ P ep := by
  rw [arrives]
  exact ⟨fun all => all ep rfl, fun own other same => Option.some.inj same ▸ own⟩

omit [Float64 F] in
theorem forall_early_of_none (none : m.early event = none) : ∀ ep ∈ m.early event, P ep := by
  rw [none]
  exact fun ep absent => by cases absent

end

def registered (m : Multiplexer F) : List ConnectionID := m.peers.map Peer.cidKey

/-- Neither the early packets nor the IDs that have been registered change. -/
structure Idle (m m' : Multiplexer F) : Prop where
  early : m'.earlyPackets = m.earlyPackets
  registered : m'.registered = m.registered

omit [Float64 F] in
theorem Idle.trans {m'' : Multiplexer F} (first : Idle m m') (second : Idle m' m'') :
    Idle m m'' :=
  ⟨second.early.trans first.early, second.registered.trans first.registered⟩

omit [Float64 F] in
theorem Idle.foldl {α : Type} {change : Multiplexer F → α → Multiplexer F}
    (each : ∀ m x, Idle m (change m x)) (xs : List α) : Idle m (xs.foldl change m) := by
  induction xs generalizing m with
  | nil => exact ⟨rfl, rfl⟩
  | cons x rest ih => exact (each m x).trans ih

theorem idle_onHost {i : Nat} {input : Host.Input} (taken : m.onHost i input = some m') :
    Idle m m' := by
  simp only [onHost, Option.bind_eq_bind, Option.bind_eq_some_iff] at taken
  obtain ⟨p, found, h, -, out⟩ := taken
  obtain rfl := Option.some.inj out
  have same : (m.peers.set i { p with host := h }).map Peer.cidKey = m.registered :=
    Peer.map_set found rfl
  split
  · exact ⟨rfl, same⟩
  · exact ⟨rfl, same⟩

/-- What an event does to the early packets and to the IDs that have been
registered. -/
inductive Stirs (m : Multiplexer F) (event : Event) : Multiplexer F → Prop
  | buffer (ep : EarlyPacket) (arrives : m.early event = some ep) :
    Stirs m event (m.bufferEarly ep.pkt ep.addr)
  | create (now : Time) (pkt : Packet) (addr : Addr) (none : m.early event = none) :
    Stirs m event (m.create now pkt addr)
  | dial (now : Time) (localCID remoteCID : ConnectionID) (addr : Addr)
    (dials : event = .dial now localCID remoteCID addr) :
    Stirs m event (m.dial now localCID remoteCID addr)
  | idle {m' : Multiplexer F} (none : m.early event = none) (idle : Idle m m') :
    Stirs m event m'

omit [Float64 F] in
theorem early_datagram {data : List UInt8} {pkt : Packet} (decoded : unmarshalPacket data = .ok pkt)
    (now : Time) (addr : Addr) (challenge : Option (Vector UInt8 8)) :
    m.early (.datagram now data addr challenge) =
      if pkt.version = versionCurrent ∧ m.connections.lookup pkt.destinationCID = none ∧
        pkt.hasSyn = false then some ⟨pkt, addr⟩ else none := by
  rw [early, decoded]

theorem stirs_route {data : List UInt8} {pkt : Packet} (decoded : unmarshalPacket data = .ok pkt)
    (now : Time) (addr : Addr) (challenge : Option (Vector UInt8 8)) :
    Stirs m (.datagram now data addr challenge) (m.route now pkt addr challenge) := by
  have arrives := early_datagram (m := m) decoded now addr challenge
  unfold route
  split
  · rename_i version
    exact .idle (arrives.trans (if_neg fun kept => version kept.1)) ⟨rfl, rfl⟩
  · rename_i version
    split
    · rename_i i found
      refine .idle (arrives.trans (if_neg fun kept => ?_)) ⟨rfl, Peer.map_modify (fun p => ?_) i⟩
      · cases found.symm.trans kept.2.1
      · exact Peer.cidKey_enqueue pkt
    · rename_i missing
      split
      · rename_i plain
        exact .buffer ⟨pkt, addr⟩ (arrives.trans (if_pos ⟨Decidable.not_not.mp version, missing,
          by simpa using plain⟩))
      · rename_i syn
        exact .create now pkt addr (arrives.trans (if_neg fun kept => syn (by rw [kept.2.2]; rfl)))

theorem step_stirs (taken : m.step event = some m') : Stirs m event m' := by
  cases event with
  | datagram now data addr challenge =>
    obtain rfl := Option.some.inj taken
    unfold handleDatagram
    split
    · rename_i failed
      exact .idle (by rw [early, failed]) ⟨rfl, rfl⟩
    · rename_i pkt decoded
      exact stirs_route decoded now addr challenge
  | accept =>
    obtain ⟨out, handed, rfl⟩ := Option.map_eq_some_iff.mp taken
    obtain ⟨i, rest, -, rfl⟩ := accept_eq_some handed
    exact .idle rfl ⟨rfl, rfl⟩
  | dial now localCID remoteCID addr =>
    obtain ⟨-, ⟨⟩⟩ := Option.ite_none_right_eq_some.mp taken
    exact .dial now localCID remoteCID addr rfl
  | take i =>
    obtain ⟨p, inbound, inHand, found, rfl⟩ := take_cases taken
    exact .idle rfl ⟨rfl, Peer.map_set found rfl⟩
  | proceed i now =>
    obtain ⟨p, step, rest, found, -, stepped⟩ := proceed_cases taken
    have stays : Idle m { m with peers := m.peers.set i { p with inHand := rest } } :=
      ⟨rfl, Peer.map_set found rfl⟩
    exact .idle rfl (stays.trans (idle_onHost stepped))
  | call i input =>
    obtain ⟨-, stepped⟩ := Option.ite_none_right_eq_some.mp taken
    exact .idle rfl (idle_onHost stepped)
  | idleRound =>
    obtain rfl := Option.some.inj taken
    refine .idle rfl (.foldl (fun m e => ?_) _)
    split <;> exact ⟨rfl, rfl⟩
  | close now =>
    obtain rfl := Option.some.inj taken
    have emptied : Idle m { m with connections := ∅ } := ⟨rfl, rfl⟩
    refine .idle rfl (emptied.trans (.foldl (fun m i => ?_) _))
    cases stepped : m.onHost i (.close now errorNoError []) with
    | none => exact ⟨rfl, rfl⟩
    | some m' => exact idle_onHost stepped

theorem early_eq_none_of_refused (refused : m.step event = none) : m.early event = none := by
  cases event with
  | datagram => cases refused
  | accept | dial | take | proceed | call | idleRound | close => rfl

structure Capped (m : Multiplexer F) : Prop where
  ids : m.earlyPackets.entries.length ≤ 256
  packets : ∀ cid entry, m.earlyPackets.lookup cid = some entry → entry.length ≤ 32

omit [Float64 F] in
theorem lookup_bufferEarly (pkt : Packet) (addr : Addr) (cid : ConnectionID) :
    (m.bufferEarly pkt addr).earlyPackets.lookup cid =
      if cid = pkt.destinationCID ∧ m.earlyPackets.entries.length < 256 ∧
          ((m.earlyPackets.lookup cid).getD []).length < 32 then
        some ((m.earlyPackets.lookup cid).getD [] ++ [⟨pkt, addr⟩])
      else m.earlyPackets.lookup cid := by
  unfold bufferEarly
  dsimp only
  by_cases room : m.earlyPackets.entries.length < 256
  · by_cases same : cid = pkt.destinationCID
    · subst same
      rw [if_pos room]
      by_cases short : ((m.earlyPackets.lookup pkt.destinationCID).getD []).length < 32
      · rw [if_pos short, if_pos ⟨rfl, room, short⟩]
        exact AList.lookup_insert _
      · rw [if_neg short, if_neg fun fits => short fits.2.2]
    · have other : ¬ (cid = pkt.destinationCID ∧ m.earlyPackets.entries.length < 256 ∧
          ((m.earlyPackets.lookup cid).getD []).length < 32) := fun fits => same fits.1
      rw [if_pos room, if_neg other]
      split
      · exact AList.lookup_insert_ne same
      · rfl
  · rw [if_neg room, if_neg fun fits => room fits.2.1]

omit [Float64 F] in
theorem earlyPackets_bufferEarly_new {pkt : Packet} {addr : Addr}
    (missing : m.earlyPackets.lookup pkt.destinationCID = none)
    (room : m.earlyPackets.entries.length < 256) :
    (m.bufferEarly pkt addr).earlyPackets =
      m.earlyPackets.insert pkt.destinationCID [⟨pkt, addr⟩] := by
  rw [bufferEarly, if_pos room, missing]
  rfl

omit [Float64 F] in
theorem Capped.bufferEarly (capped : m.Capped) (pkt : Packet) (addr : Addr) :
    (m.bufferEarly pkt addr).Capped := by
  constructor
  · unfold Multiplexer.bufferEarly
    dsimp only
    split
    · rename_i room
      split
      · have fewer := (List.kerase_sublist pkt.destinationCID m.earlyPackets.entries).length_le
        rw [AList.entries_insert, List.length_cons]
        omega
      · exact capped.ids
    · exact capped.ids
  · intro cid entry found
    rw [lookup_bufferEarly] at found
    split at found
    · rename_i fits
      obtain rfl := Option.some.inj found
      rw [List.length_append, List.length_singleton]
      exact fits.2.2
    · exact capped.packets cid entry found

omit [Float64 F] in
theorem lookup_erase_eq_some {cid other : ConnectionID} {entry : List EarlyPacket}
    (found : (m.earlyPackets.erase other).lookup cid = some entry) :
    cid ≠ other ∧ m.earlyPackets.lookup cid = some entry := by
  by_cases same : cid = other
  · subst same
    rw [AList.lookup_erase] at found
    cases found
  · rw [AList.lookup_erase_ne same] at found
    exact ⟨same, found⟩

theorem Capped.step (capped : m.Capped) (taken : m.step event = some m') : m'.Capped := by
  cases step_stirs taken with
  | buffer ep => exact capped.bufferEarly ep.pkt ep.addr
  | create now pkt addr =>
    refine ⟨Nat.le_trans (List.kerase_sublist _ _).length_le capped.ids, fun cid entry found => ?_⟩
    exact capped.packets cid entry (lookup_erase_eq_some found).2
  | dial => exact ⟨capped.ids, capped.packets⟩
  | idle none idle => exact ⟨idle.early ▸ capped.ids, idle.early ▸ capped.packets⟩

/-- The packets kept for the connection `cid`. -/
def buffered (m : Multiplexer F) (cid : ConnectionID) : List EarlyPacket :=
  (m.earlyPackets.lookup cid).getD []

/-- A SYN that creates a connection brings its early packets with it, in order. -/
def Replays (m : Multiplexer F) : Prop :=
  ∀ now data addr challenge pkt, unmarshalPacket data = .ok pkt → m.Creates pkt →
    ∃ p, (m.handleDatagram now data addr challenge).peers = m.peers ++ [p] ∧
      p.cidKey = pkt.destinationCID ∧
      p.inbound = pkt :: (m.buffered pkt.destinationCID).map EarlyPacket.pkt ∧
      (m.handleDatagram now data addr challenge).earlyPackets.lookup pkt.destinationCID = none

omit [Float64 F] in
theorem Capped.length_buffered (capped : m.Capped) (cid : ConnectionID) :
    (m.buffered cid).length ≤ 32 := by
  unfold buffered
  cases found : m.earlyPackets.lookup cid with
  | none => exact Nat.zero_le _
  | some entry => exact capped.packets cid entry found

theorem Capped.replays (capped : m.Capped) : m.Replays := by
  intro now data addr challenge pkt decoded creates
  obtain ⟨version, missing, syn⟩ := creates
  have made : m.handleDatagram now data addr challenge = m.create now pkt addr := by
    rw [handleDatagram, decoded]
    show m.route now pkt addr challenge = _
    rw [route, if_neg (not_not.mpr version), missing, syn]
    rfl
  have short := capped.length_buffered pkt.destinationCID
  rw [made]
  refine ⟨_, rfl, ?_, ?_, AList.lookup_erase _ _⟩
  · exact (Peer.cidKey_foldl_enqueue _).trans (Peer.cidKey_enqueue pkt)
  · exact Peer.inbound_foldl_enqueue (p := Peer.enqueue (Peer.newPeer _ _ addr false now) pkt)
      (Nat.le_trans (Nat.add_le_add_left short 1) (by decide))

section

variable {pkt : Packet}

omit [Float64 F] in
theorem early_arrival (encodable : pkt.Encodable) (current : pkt.version = versionCurrent)
    (plain : pkt.hasSyn = false) (unknown : m.connections.lookup pkt.destinationCID = none) :
    m.early (Register.arrival pkt) = some ⟨pkt.arrived, "peer"⟩ :=
  (early_datagram (unmarshalPacket_encoded pkt encodable) 0 "peer" none).trans
    (if_pos ⟨current, unknown, plain⟩)

theorem step_arrival (encodable : pkt.Encodable) (current : pkt.version = versionCurrent)
    (plain : pkt.hasSyn = false) (unknown : m.connections.lookup pkt.destinationCID = none) :
    m.step (Register.arrival pkt) = some (m.bufferEarly pkt.arrived "peer") := by
  refine congrArg some ((handleDatagram_encoded encodable 0 "peer" none).trans ?_)
  have current : pkt.arrived.version = versionCurrent := current
  have unknown : m.connections.lookup pkt.arrived.destinationCID = none := unknown
  have plain : pkt.arrived.hasSyn = false := plain
  show m.route 0 pkt.arrived "peer" none = _
  rw [route, if_neg (not_not.mpr current), unknown, plain]
  rfl

end

end Multiplexer

/-- A multiplexer, and the packets without a SYN that have found no connection,
for each ID since its entry was made. -/
structure Lobby (F : Type) where
  mux : Multiplexer F := {}
  since : ConnectionID → List EarlyPacket := fun _ => []

namespace Lobby

variable {F : Type} [Float64 F] {l l' : Lobby F} {event : Multiplexer.Event}

def step (l : Lobby F) (event : Multiplexer.Event) : Option (Lobby F) := do
  let mux ← l.mux.step event
  return {
    mux := mux
    since := match l.mux.early event with
      | none => l.since
      | some ep =>
        let cid := ep.pkt.destinationCID
        let earlier := if (l.mux.earlyPackets.lookup cid).isSome then l.since cid else []
        Function.update l.since cid (earlier ++ [ep]) }

/-- Each entry is the first of the packets that have arrived for it. -/
def KeepsFirst (l : Lobby F) : Prop :=
  ∀ cid entry, l.mux.earlyPackets.lookup cid = some entry → entry = (l.since cid).take 32

/-- A packet for an entry that is not full comes while the buffer is not. -/
def FindsRoom (l : Lobby F) (event : Multiplexer.Event) : Prop :=
  ∀ ep ∈ l.mux.early event, ∀ entry ∈ l.mux.earlyPackets.lookup ep.pkt.destinationCID,
    entry.length < 32 → l.mux.earlyPackets.entries.length < 256

theorem step_cases (taken : l.step event = some l') :
    l.mux.step event = some l'.mux ∧
      l'.since = match l.mux.early event with
        | none => l.since
        | some ep =>
          Function.update l.since ep.pkt.destinationCID
            ((if (l.mux.earlyPackets.lookup ep.pkt.destinationCID).isSome then
              l.since ep.pkt.destinationCID else []) ++ [ep]) := by
  simp only [step, Option.bind_eq_bind, Option.bind_eq_some_iff] at taken
  obtain ⟨mux, stepped, out⟩ := taken
  obtain rfl := Option.some.inj out
  exact ⟨stepped, rfl⟩

theorem take_append_singleton {α : Type} {n : Nat} {xs : List α} (short : (xs.take n).length < n)
    (x : α) : (xs ++ [x]).take n = xs.take n ++ [x] := by
  rw [List.length_take] at short
  rw [List.take_of_length_le (by simp; omega), List.take_of_length_le (by omega)]

theorem take_append_of_full {α : Type} {n : Nat} {xs : List α} (full : ¬ (xs.take n).length < n)
    (ys : List α) : (xs ++ ys).take n = xs.take n := by
  rw [List.length_take] at full
  exact List.take_append_of_le_length (by omega)

omit [Float64 F] in
/-- An early packet finds its entry as it should be, and leaves it so if and only
if the entry was full or there is room. -/
theorem keepsFirst_buffer {ep : EarlyPacket} (keeps : l.KeepsFirst)
    (arrives : l.mux.early event = some ep)
    (same : l'.mux = l.mux.bufferEarly ep.pkt ep.addr)
    (since : l'.since = Function.update l.since ep.pkt.destinationCID
      ((if (l.mux.earlyPackets.lookup ep.pkt.destinationCID).isSome then
        l.since ep.pkt.destinationCID else []) ++ [ep])) :
    l'.KeepsFirst ↔ l.FindsRoom event := by
  have others (cid : ConnectionID) (entry : List EarlyPacket) (other : cid ≠ ep.pkt.destinationCID)
      (found : l'.mux.earlyPackets.lookup cid = some entry) : entry = (l'.since cid).take 32 := by
    rw [same, Multiplexer.lookup_bufferEarly, if_neg fun fits => other fits.1] at found
    rw [since, Function.update_of_ne other]
    exact keeps cid entry found
  have whole : l'.KeepsFirst ↔ ∀ entry,
      l'.mux.earlyPackets.lookup ep.pkt.destinationCID = some entry →
        entry = (l'.since ep.pkt.destinationCID).take 32 := by
    refine ⟨fun keeps entry => keeps _ entry, fun own cid entry found => ?_⟩
    by_cases other : cid = ep.pkt.destinationCID
    · subst other
      exact own entry found
    · exact others cid entry other found
  unfold FindsRoom
  rw [Multiplexer.forall_early arrives, whole, since, Function.update_self, same,
    Multiplexer.lookup_bufferEarly]
  cases found : l.mux.earlyPackets.lookup ep.pkt.destinationCID with
  | none =>
    refine iff_of_true (fun entry here => ?_) (fun entry absent => by cases absent)
    obtain ⟨-, ⟨⟩⟩ := Option.ite_none_right_eq_some.mp here
    rfl
  | some entry =>
    obtain rfl := keeps _ entry found
    rw [Option.getD_some, Option.isSome_some, if_pos rfl]
    simp only [Option.mem_def, Option.some.injEq, forall_eq', true_and]
    by_cases short : ((l.since ep.pkt.destinationCID).take 32).length < 32
    · rw [take_append_singleton short]
      by_cases room : l.mux.earlyPackets.entries.length < 256
      · rw [if_pos ⟨room, short⟩]
        exact iff_of_true (fun _ here => (Option.some.inj here).symm) fun _ => room
      · -- the packet is dropped though its entry has room for it
        rw [if_neg fun fits => room fits.1]
        refine iff_of_false (fun same => ?_) fun spared => room (spared short)
        have longer := congrArg List.length (same _ rfl)
        rw [List.length_append, List.length_singleton] at longer
        omega
    · rw [if_neg fun fits => short fits.2, take_append_of_full short]
      exact iff_of_true (fun _ here => (Option.some.inj here).symm) fun below => absurd below short

theorem keepsFirst_step (keeps : l.KeepsFirst) (taken : l.step event = some l') :
    l'.KeepsFirst ↔ l.FindsRoom event := by
  obtain ⟨stepped, since⟩ := step_cases taken
  have unmoved (none : l.mux.early event = none) (kept : ∀ cid entry,
      l'.mux.earlyPackets.lookup cid = some entry → l.mux.earlyPackets.lookup cid = some entry) :
      l'.KeepsFirst ↔ l.FindsRoom event := by
    rw [none] at since
    refine iff_of_true (fun cid entry found => ?_) (Multiplexer.forall_early_of_none none)
    rw [since]
    exact keeps cid entry (kept cid entry found)
  generalize mux : l'.mux = m' at stepped
  cases Multiplexer.step_stirs stepped with
  | buffer ep arrives =>
    rw [arrives] at since
    exact keepsFirst_buffer keeps arrives mux since
  | create now pkt addr none =>
    refine unmoved none fun cid entry found => ?_
    rw [mux] at found
    exact (Multiplexer.lookup_erase_eq_some found).2
  | dial now localCID remoteCID addr dials =>
    subst dials
    refine unmoved rfl fun cid entry found => ?_
    rw [mux] at found
    exact found
  | idle none idle =>
    refine unmoved none fun cid entry found => ?_
    rwa [mux, idle.early] at found

theorem early_eq_none_of_refused (refused : l.step event = none) : l.mux.early event = none := by
  simp only [step, Option.bind_eq_bind, Option.bind_eq_none_iff] at refused
  cases stepped : l.mux.step event with
  | none => exact Multiplexer.early_eq_none_of_refused stepped
  | some mux => cases refused mux stepped

theorem capped_run {events : List Multiplexer.Event}
    (reached : Runs.run step ({} : Lobby F) events = some l) : l.mux.Capped :=
  Runs.invariant_of_forall (fun l : Lobby F => l.mux.Capped)
    (fun l event l' capped taken => capped.step (step_cases taken).1)
    ⟨Nat.zero_le _, fun cid entry absent => by cases absent⟩ reached

/-- The buffer keeps to its caps, and what is in it is replayed after the SYN. Its
entries hold the first packets that came for them all the way through a run if and
only if none that its entry has room for comes while the buffer is full. -/
theorem earlyPackets_exact_iff (events : List Multiplexer.Event) :
    (∀ l : Lobby F, Runs.run step {} events = some l → l.mux.Capped ∧ l.mux.Replays) ∧
    ((∀ before, before <+: events →
        ∀ l : Lobby F, Runs.run step {} before = some l → l.KeepsFirst) ↔
      Runs.Along step FindsRoom ({} : Lobby F) events) := by
  constructor
  · intro l reached
    have capped := capped_run reached
    exact ⟨capped, capped.replays⟩
  · refine Runs.always_iff_along (fun l event l' keeps _ => keepsFirst_step keeps)
      (fun l event refused => ?_) (Runs.along_true _ events) ?_
    · exact Multiplexer.forall_early_of_none (early_eq_none_of_refused refused)
    · exact fun cid entry absent => by cases absent

def key (cid : UInt8) : ConnectionID := (Register.syn cid 1).destinationCID

/-- A packet with data for the connection `cid`, without its SYN. -/
def stray (cid : UInt8) : Packet :=
  { Register.syn cid 1 with frames := [.stream ⟨false, false, 0, [7]⟩] }

theorem encodable_stray (cid : UInt8) : (stray cid).Encodable :=
  ⟨by simp [stray, Frame.Encodable], by simp [stray, Register.syn]⟩

def kept (cid : UInt8) : EarlyPacket := ⟨(stray cid).arrived, "peer"⟩

/-- What its arrival does where there are no connections. -/
def receive (l : Lobby F) (cid : UInt8) : Lobby F where
  mux := l.mux.bufferEarly (kept cid).pkt "peer"
  since := Function.update l.since (key cid)
    ((if (l.mux.earlyPackets.lookup (key cid)).isSome then l.since (key cid) else []) ++ [kept cid])

theorem step_stray (unknown : l.mux.connections = ∅) (cid : UInt8) :
    l.step (Register.arrival (stray cid)) = some (l.receive cid) := by
  have missing : l.mux.connections.lookup (stray cid).destinationCID = none := by
    rw [unknown]
    rfl
  rw [step, Multiplexer.step_arrival (encodable_stray cid) rfl rfl missing,
    Multiplexer.early_arrival (encodable_stray cid) rfl rfl missing]
  rfl

omit [Float64 F] in
theorem connections_receive (cid : UInt8) : (l.receive cid).mux.connections = l.mux.connections := by
  show (l.mux.bufferEarly (kept cid).pkt "peer").connections = _
  unfold Multiplexer.bufferEarly
  dsimp only
  split
  · split <;> rfl
  · rfl

omit [Float64 F] in
theorem since_receive (cid : UInt8) :
    (l.receive cid).since (key cid) =
      (if (l.mux.earlyPackets.lookup (key cid)).isSome then l.since (key cid) else []) ++
        [kept cid] :=
  Function.update_self (key cid) _ l.since

omit [Float64 F] in
theorem receive_ne {cid other : UInt8} (apart : other ≠ cid) :
    (l.receive cid).since (key other) = l.since (key other) ∧
      (l.receive cid).mux.earlyPackets.lookup (key other) =
        l.mux.earlyPackets.lookup (key other) := by
  have distinct : key other ≠ key cid :=
    fun same => apart (List.singleton_inj.mp (congrArg ConnectionID.bytes same))
  refine ⟨Function.update_of_ne distinct _ _, ?_⟩
  exact (Multiplexer.lookup_bufferEarly _ _ _).trans (if_neg fun fits => distinct fits.1)

omit [Float64 F] in
theorem receive_new {cid : UInt8} (missing : l.mux.earlyPackets.lookup (key cid) = none)
    (room : l.mux.earlyPackets.entries.length < 256) :
    (l.receive cid).mux.earlyPackets.entries.length = l.mux.earlyPackets.entries.length + 1 ∧
      (l.receive cid).mux.earlyPackets.lookup (key cid) = some [kept cid] ∧
      (l.receive cid).since (key cid) = [kept cid] := by
  have entered : (l.receive cid).mux.earlyPackets =
      l.mux.earlyPackets.insert (key cid) [kept cid] :=
    Multiplexer.earlyPackets_bufferEarly_new missing room
  rw [since_receive, missing, entered, AList.lookup_insert,
    AList.entries_insert_of_notMem (AList.lookup_eq_none.mp missing)]
  exact ⟨rfl, rfl, rfl⟩

theorem run_strays {cids : List UInt8} (nodup : cids.Nodup) (unknown : l.mux.connections = ∅)
    (absent : ∀ cid ∈ cids, l.mux.earlyPackets.lookup (key cid) = none)
    (few : l.mux.earlyPackets.entries.length + cids.length ≤ 256) :
    ∃ l', Runs.run step l (cids.map fun cid => Register.arrival (stray cid)) = some l' ∧
      l'.mux.connections = ∅ ∧
      l'.mux.earlyPackets.entries.length = l.mux.earlyPackets.entries.length + cids.length ∧
      ∀ cid, cid ∉ cids → l'.since (key cid) = l.since (key cid) ∧
        l'.mux.earlyPackets.lookup (key cid) = l.mux.earlyPackets.lookup (key cid) := by
  induction cids generalizing l with
  | nil => exact ⟨l, rfl, unknown, rfl, fun cid _ => ⟨rfl, rfl⟩⟩
  | cons first rest ih =>
    obtain ⟨new, nodup⟩ := List.nodup_cons.mp nodup
    obtain ⟨missing, absent⟩ := List.forall_mem_cons.mp absent
    rw [List.length_cons] at few ⊢
    obtain ⟨longer, -, -⟩ := receive_new missing (by omega)
    have elsewhere (cid : UInt8) (member : cid ∈ rest) : cid ≠ first :=
      fun same => new (same ▸ member)
    obtain ⟨l', reached, unknown, length, same⟩ := ih nodup (l := l.receive first)
      ((connections_receive first).trans unknown)
      (fun cid member => (receive_ne (elsewhere cid member)).2.trans (absent cid member))
      (by omega)
    refine ⟨l', ?_, unknown, by omega, fun cid outside => ?_⟩
    · rw [List.map_cons, Runs.run_cons, step_stray ‹_›, Option.bind_some]
      exact reached
    · obtain ⟨apart, outside⟩ := not_or.mp (List.mem_cons.not.mp outside)
      obtain ⟨since, lookup⟩ := receive_ne (l := l) apart
      exact ⟨(same cid outside).1.trans since, (same cid outside).2.trans lookup⟩

def rest : List UInt8 := (List.range 255).map fun i => .ofNat (i + 1)

theorem nodup_rest : rest.Nodup := by
  refine List.Nodup.map_on (fun i below j below' same => ?_) List.nodup_range
  have values := congrArg UInt8.toNat same
  rw [List.mem_range] at below below'
  rw [UInt8.toNat_ofNat', UInt8.toNat_ofNat'] at values
  omega

theorem length_rest : rest.length = 255 := by rw [rest, List.length_map, List.length_range]

theorem ne_zero_of_mem_rest {cid : UInt8} (member : cid ∈ rest) : cid ≠ 0 := by
  obtain ⟨i, below, rfl⟩ := List.mem_map.mp member
  intro same
  have value := congrArg UInt8.toNat same
  rw [List.mem_range] at below
  rw [UInt8.toNat_ofNat', UInt8.toNat_zero] at value
  omega

/-- A packet for each of 256 connections, and a second one for the first of them. -/
def crowded : List Multiplexer.Event :=
  (0 :: rest ++ [0]).map fun cid => Register.arrival (stray cid)

/-- The second packet is dropped. -/
theorem crowded_drops :
    ∃ l : Lobby ℚ, Runs.run step {} crowded = some l ∧
      l.since (key 0) = [kept 0, kept 0] ∧
      l.mux.earlyPackets.lookup (key 0) = some [kept 0] ∧ ¬ l.KeepsFirst := by
  obtain ⟨one, found, logged⟩ := receive_new (l := ({} : Lobby ℚ)) (AList.lookup_empty (key 0))
    (Nat.zero_lt_succ 255)
  obtain ⟨full, reached, unknown, length, same⟩ := run_strays nodup_rest
    ((connections_receive 0).trans rfl)
    (fun cid member =>
      (receive_ne (ne_zero_of_mem_rest member)).2.trans (AList.lookup_empty (key cid)))
    (by rw [one, length_rest]; exact Nat.le_refl 256)
  obtain ⟨since, lookup⟩ := same 0 fun member => ne_zero_of_mem_rest member rfl
  rw [one, length_rest] at length
  rw [found] at lookup
  have dropped : (full.receive 0).mux.earlyPackets.lookup (key 0) = some [kept 0] := by
    refine (Multiplexer.lookup_bufferEarly _ _ _).trans ((if_neg fun fits => ?_).trans lookup)
    exact absurd fits.2.1 (by rw [length]; exact Nat.lt_irrefl 256)
  have arrived : (full.receive 0).since (key 0) = [kept 0, kept 0] := by
    rw [since_receive, lookup, since, logged]
    rfl
  refine ⟨full.receive 0, ?_, arrived, dropped, fun exact => ?_⟩
  · rw [crowded, List.map_append, List.map_cons, List.map_singleton, List.cons_append,
      Runs.run_cons, step_stray rfl 0, Option.bind_some]
    exact Runs.run_append_singleton reached (step_stray unknown 0)
  · have short := congrArg List.length (exact (key 0) _ dropped)
    rw [arrived, List.length_take] at short
    cases short

end Lobby

namespace Multiplexer

variable {F : Type} [Float64 F] {m m' : Multiplexer F} {event : Event}

/-- The buffer is for connections that have never been. -/
def KeepsForStrangers (m : Multiplexer F) : Prop :=
  ∀ cid ∈ m.earlyPackets, cid ∉ m.registered

/-- A connection is dialled under a new ID. -/
def DialsFresh (m : Multiplexer F) : Event → Prop
  | .dial _ localCID _ _ => localCID ∉ m.registered ∧ localCID ∉ m.earlyPackets
  | _ => True

/-- A packet without a SYN that finds no connection is for one that has never been,
or finds the buffer full. -/
def FindsStranger (m : Multiplexer F) (event : Event) : Prop :=
  ∀ ep ∈ m.early event, ep.pkt.destinationCID ∉ m.registered ∨
    256 ≤ m.earlyPackets.entries.length

omit [Float64 F] in
theorem mem_bufferEarly_iff (pkt : Packet) (addr : Addr) (cid : ConnectionID) :
    cid ∈ (m.bufferEarly pkt addr).earlyPackets ↔ cid ∈ m.earlyPackets ∨
      cid = pkt.destinationCID ∧ m.earlyPackets.entries.length < 256 := by
  rw [← AList.lookup_isSome, ← AList.lookup_isSome, lookup_bufferEarly]
  split
  · rename_i fits
    exact iff_of_true rfl (.inr ⟨fits.1, fits.2.1⟩)
  · rename_i stays
    refine ⟨.inl, fun either => either.elim id fun ⟨same, room⟩ => ?_⟩
    -- an entry that is full is there
    cases found : m.earlyPackets.lookup cid with
    | some entry => rfl
    | none => exact absurd ⟨same, room, by rw [found]; decide⟩ stays

omit [Float64 F] in
theorem registered_bufferEarly (pkt : Packet) (addr : Addr) :
    (m.bufferEarly pkt addr).registered = m.registered := by
  unfold bufferEarly
  dsimp only
  split
  · split <;> rfl
  · rfl

theorem registered_create (now : Time) (pkt : Packet) (addr : Addr) :
    (m.create now pkt addr).registered = m.registered ++ [pkt.destinationCID] := by
  have key := Peer.cidKey_foldl_enqueue (m.buffered pkt.destinationCID)
    (p := Peer.enqueue (Peer.newPeer pkt.destinationCID pkt.sourceCID addr false now : Peer F) pkt)
  rw [Peer.cidKey_enqueue] at key
  exact List.map_append.trans (congrArg (fun cid => m.registered ++ [cid]) key)

theorem registered_dial (now : Time) (localCID remoteCID : ConnectionID) (addr : Addr) :
    (m.dial now localCID remoteCID addr).registered = m.registered ++ [localCID] :=
  List.map_append

omit [Float64 F] in
theorem keepsForStrangers_buffer (strangers : m.KeepsForStrangers) {ep : EarlyPacket}
    (arrives : m.early event = some ep) :
    (m.bufferEarly ep.pkt ep.addr).KeepsForStrangers ↔ m.FindsStranger event := by
  unfold KeepsForStrangers FindsStranger
  rw [forall_early arrives, registered_bufferEarly]
  simp only [mem_bufferEarly_iff]
  constructor
  · intro keeps
    by_cases room : m.earlyPackets.entries.length < 256
    · exact .inl (keeps _ (.inr ⟨rfl, room⟩))
    · exact .inr (Nat.le_of_not_lt room)
  · rintro either cid (old | ⟨rfl, room⟩)
    · exact strangers cid old
    · exact either.resolve_right (Nat.not_le_of_lt room)

theorem keepsForStrangers_step (strangers : m.KeepsForStrangers) (fresh : m.DialsFresh event)
    (taken : m.step event = some m') : m'.KeepsForStrangers ↔ m.FindsStranger event := by
  have unmoved (none : m.early event = none) (kept : m'.KeepsForStrangers) :
      m'.KeepsForStrangers ↔ m.FindsStranger event :=
    iff_of_true kept (forall_early_of_none none)
  cases step_stirs taken with
  | buffer ep arrives => exact keepsForStrangers_buffer strangers arrives
  | create now pkt addr none =>
    refine unmoved none fun cid member known => ?_
    obtain ⟨other, member⟩ := AList.mem_erase.mp member
    rw [registered_create, List.mem_append, List.mem_singleton] at known
    exact known.elim (strangers cid member) other
  | dial now localCID remoteCID addr dials =>
    subst dials
    refine unmoved rfl fun cid member known => ?_
    rw [registered_dial, List.mem_append, List.mem_singleton] at known
    rcases known with old | rfl
    · exact strangers cid member old
    · exact fresh.2 member
  | idle none idle =>
    refine unmoved none fun cid member => ?_
    rw [idle.registered]
    exact strangers cid (idle.early ▸ member)

/-- The buffer holds packets only for connections that have never been, all the way
through a run in which each is dialled under a new ID, if and only if no packet for
one that is gone finds room in it. -/
theorem keepsForStrangers_iff {events : List Event}
    (fresh : Runs.Along step DialsFresh ({} : Multiplexer F) events) :
    (∀ before, before <+: events → ∀ m : Multiplexer F, Runs.run step {} before = some m →
      m.KeepsForStrangers) ↔
      Runs.Along step FindsStranger ({} : Multiplexer F) events := by
  refine Runs.always_iff_along (fun m event m' => keepsForStrangers_step)
    (fun m event refused => forall_early_of_none (early_eq_none_of_refused refused)) fresh ?_
  exact fun cid absent => absurd absent (AList.notMem_empty cid)

/-- A connection is dialled, and a packet for another comes. -/
def overtaken : List Event :=
  [.dial 0 ⟨[0, 1, 2, 3, 4, 5, 6, 7], by decide⟩ ⟨[7, 6, 5, 4, 3, 2, 1, 0], by decide⟩ "peer",
    Register.arrival (Lobby.stray 3)]

theorem overtaken_buffered :
    Runs.Along step DialsFresh ({} : Multiplexer ℚ) overtaken ∧
      ∃ m : Multiplexer ℚ, Runs.run step {} overtaken = some m ∧ Lobby.key 3 ∈ m.earlyPackets ∧
        m.KeepsForStrangers := by
  let dialled := dial ({} : Multiplexer ℚ) 0 ⟨[0, 1, 2, 3, 4, 5, 6, 7], by decide⟩
    ⟨[7, 6, 5, 4, 3, 2, 1, 0], by decide⟩ "peer"
  have fresh : Runs.Along step DialsFresh ({} : Multiplexer ℚ) overtaken :=
    ⟨⟨List.not_mem_nil, AList.notMem_empty _⟩, fun m _ => ⟨trivial, fun m' _ => trivial⟩⟩
  have unknown : dialled.connections.lookup (Lobby.key 3) = none := by decide
  have finds : Runs.Along step FindsStranger ({} : Multiplexer ℚ) overtaken := by
    refine ⟨forall_early_of_none rfl, fun m taken => ⟨?_, fun m' _ => trivial⟩⟩
    obtain rfl : dialled = m := Option.some.inj taken
    have arrives := early_arrival (Lobby.encodable_stray 3) rfl rfl unknown
    refine (forall_early arrives).mpr (.inl fun known => ?_)
    rw [registered_dial] at known
    exact absurd known (by decide)
  have kept := step_arrival (Lobby.encodable_stray 3) rfl rfl unknown
  have opened : Runs.run step ({} : Multiplexer ℚ) (overtaken.take 1) = some dialled := rfl
  have reached : Runs.run step ({} : Multiplexer ℚ) overtaken =
      some (dialled.bufferEarly (Lobby.stray 3).arrived "peer") :=
    Runs.run_append_singleton opened kept
  refine ⟨fresh, _, reached, (mem_bufferEarly_iff _ _ _).mpr (.inr ⟨rfl, by decide⟩), ?_⟩
  exact (keepsForStrangers_iff fresh).mpr finds overtaken (List.prefix_refl _) _ reached

/-- What a peer answers a close with. -/
def farewell (cid : UInt8) : Packet :=
  { Register.syn cid 0 with frames := [.connectionClose ⟨errorNoError, 0, []⟩] }

theorem encodable_farewell (cid : UInt8) : (farewell cid).Encodable :=
  ⟨by simp [farewell, Frame.Encodable], by simp [farewell, Register.syn]⟩

/-- A peer opens a connection, it is closed here, and the peer's answer comes. -/
def closing : List Event :=
  [Register.arrival (Register.syn 0 1), .call 0 (.close 0 errorNoError []),
    Register.arrival (farewell 0)]

/-- The answer stays in the buffer. -/
theorem closing_leaves :
    ∃ m : Multiplexer ℚ, Runs.run step {} closing = some m ∧
      m.registered = [Lobby.key 0] ∧ Lobby.key 0 ∈ m.earlyPackets := by
  have passes : (Runs.run step (route ({} : Multiplexer ℚ) 0 (Register.syn 0 1).arrived "peer" none)
      [.call 0 (.close 0 errorNoError [])]).any (fun m => decide (m.registered = [Lobby.key 0] ∧
        m.connections.lookup (Lobby.key 0) = none ∧ m.earlyPackets.entries.length < 256)) =
      true := by decide +kernel
  obtain ⟨m, reached, holds⟩ := Runs.reaches_of_any passes
  obtain ⟨known, gone, room⟩ := of_decide_eq_true holds
  have answered := step_arrival (encodable_farewell 0) rfl rfl gone
  have ended : Runs.run step ({} : Multiplexer ℚ) closing =
      some (m.bufferEarly (farewell 0).arrived "peer") := by
    rw [closing, Runs.run_cons, Register.arrival, step,
      handleDatagram_encoded (Register.encodable_syn 0 1), Option.bind_some]
    exact Runs.run_append_singleton reached answered
  exact ⟨_, ended, (registered_bufferEarly _ _).trans known,
    (mem_bufferEarly_iff _ _ _).mpr (.inr ⟨rfl, room⟩)⟩

end Multiplexer

end Udx

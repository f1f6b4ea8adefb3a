import Udx.Integrity
import Udx.Peers

set_option autoImplicit false

/- Two sockets with any number of connections on each, and a network that loses,
repeats, delays and reorders, and on which others send what they like. Two of the
connections that are set up for each other, and whose IDs nobody else uses, are an
exchange as `Net` has it. -/

namespace Udx

theorem Host.Input.Allowed.mono {S T : Packet → Prop} {input : Host.Input}
    (allowed : input.Allowed S)
    (weaker : ∀ pkt, S pkt → T pkt) : input.Allowed T := by
  cases input with
  | arrive now pkt | note now pkt => exact weaker pkt allowed
  | frame now pkt f => exact ⟨weaker pkt allowed.1, allowed.2⟩
  | _ => trivial

namespace Net

variable {F : Type} [Float64 F] {n : Net F} {side : Side}

omit [Float64 F] in
theorem arrives_of_allowed {input : Host.Input}
    (allowed : input.Allowed fun pkt => (n.host side.other).sent pkt = true) :
    n.arrives side input = true := by
  cases input with
  | arrive | note => exact allowed
  | frame => exact Bool.and_eq_true_iff.mpr ⟨allowed.1, decide_eq_true allowed.2⟩
  | _ => rfl

theorem run_allowed {inputs : List Host.Input} {h : Host F}
    (allowed : ∀ input ∈ inputs, input.Allowed fun pkt => (n.host side.other).sent pkt = true)
    (ran : Runs.run Host.step (n.host side) inputs = some h) :
    Runs.run step n (inputs.map (side, ·)) = some (n.set side h) := by
  induction inputs generalizing n with
  | nil =>
    obtain rfl := Option.some.inj ran
    cases side <;> rfl
  | cons input rest ih =>
    obtain ⟨here, later⟩ := List.forall_mem_cons.mp allowed
    rw [Runs.run_cons] at ran
    obtain ⟨mid, stepped, ran⟩ := Option.bind_eq_some_iff.mp ran
    rw [List.map_cons, Runs.run_cons, step, if_pos (arrives_of_allowed here), stepped,
      Option.map_some, Option.bind_some, ih]
    · cases side <;> rfl
    · rw [host_set_other]
      exact later
    · rw [host_set_self]
      exact ran

theorem inputs_append_turns (side : Side) (turns : List (Side × Host.Input))
    (ins : List Host.Input) :
    inputs side (turns ++ ins.map (side, ·)) = inputs side turns ++ ins ∧
      inputs side.other (turns ++ ins.map (side, ·)) = inputs side.other turns := by
  have other := (Side.other_ne side).symm
  simp [inputs, List.filterMap_append, List.filterMap_map, other]

/-- The turns lead from `start` to `n`, and `record` is what each side saw on the way. -/
structure Follows (record : Side → List (Host F × Host.Input)) (start : Net F)
    (turns : List (Side × Host.Input)) (n : Net F) : Prop where
  ran : Runs.run step start turns = some n
  seen : ∀ side, record side = Runs.history Host.step (start.host side) (inputs side turns)

theorem Follows.goesOn {record : Side → List (Host F × Host.Input)} {start : Net F}
    {turns : List (Side × Host.Input)} (follows : Follows record start turns n)
    {ins : List Host.Input}
    {h : Host F}
    (allowed : ∀ input ∈ ins, input.Allowed fun pkt => (n.host side.other).sent pkt = true)
    (ran : Runs.run Host.step (n.host side) ins = some h) :
    Follows (Function.update record side
      (record side ++ Runs.history Host.step (n.host side) ins)) start
      (turns ++ ins.map (side, ·)) (n.set side h) := by
  obtain ⟨here, there⟩ := inputs_append_turns side turns ins
  refine ⟨?_, Side.forall_of side ?_ ?_⟩
  · rw [Runs.run_append, follows.ran]
    exact run_allowed allowed ran
  · rw [Function.update_self, here, follows.seen side]
    exact (Runs.output_append (run_inputs follows.ran side) ins).symm
  · rw [Function.update_of_ne (Side.other_ne side), there]
    exact follows.seen side.other

end Net

/-- What an event gives the host of the connection `i` to do. -/
def Multiplexer.inputs {F : Type} [Float64 F] (m : Multiplexer F) (i : Nat) (event : Event) :
    List Host.Input :=
  m.peers[i]?.elim [] fun p => Runs.output Peer.step Peer.inputs p (m.peerEvents i event)

structure World (F : Type) where
  left : Multiplexer F := {}
  right : Multiplexer F := {}

namespace World

variable {F : Type} [Float64 F]

def mux (w : World F) : Net.Side → Multiplexer F
  | .left => w.left
  | .right => w.right

def set (w : World F) : Net.Side → Multiplexer F → World F
  | .left, m => { w with left := m }
  | .right, m => { w with right := m }

def step (w : World F) (turn : Net.Side × Multiplexer.Event) : Option (World F) :=
  ((w.mux turn.1).step turn.2).map (w.set turn.1)

/-- Of what is addressed to one of the two IDs, only what a connection of the other
socket has handed over arrives. -/
def Genuine (cid : Net.Side → ConnectionID) (w : World F) : Net.Side × Multiplexer.Event → Prop
  | (side, .datagram _ data _ _) =>
    match unmarshalPacket data with
    | .error _ => True
    | .ok pkt => pkt.destinationCID = cid side →
      ∃ p ∈ (w.mux side.other).peers, ∃ d ∈ p.host.conn.wire, data = marshalPacket d.packet
  | _ => True

variable (cid : Net.Side → ConnectionID) (place : Net.Side → Nat)

/-- The connection of the two on one side, once there is one. -/
def peer (w : World F) (side : Net.Side) : Option (Peer F) := (w.mux side).peers[place side]?

/-- Only the two connections are registered under their IDs or send to them, and the
left one was dialled. -/
structure Paired (w : World F) : Prop where
  alone : ∀ side i p, (w.mux side).peers[i]? = some p →
    p.cidKey = cid side ∨ p.host.conn.remoteCID = cid side.other → i = place side
  own : ∀ side p, w.peer place side = some p → p.cidKey = cid side ∧
    p.host.conn.remoteCID = cid side.other ∧ p.dialled = decide (side = .left)

/-- What an event gives the two hosts to do. -/
def turnsOf (w : World F) (turn : Net.Side × Multiplexer.Event) : List (Net.Side × Host.Input) :=
  ((w.mux turn.1).inputs (place turn.1) turn.2).map (turn.1, ·)

/-- The run of the two connections. -/
def turns (start : World F) (events : List (Net.Side × Multiplexer.Event)) :
    List (Net.Side × Host.Input) :=
  Runs.output step (turnsOf place) start events

/-- What an event lets one of the two hosts see. -/
def seenOf (side : Net.Side) (w : World F) (turn : Net.Side × Multiplexer.Event) :
    List (Host F × Host.Input) :=
  if turn.1 = side then
    (w.peer place side).elim [] fun p =>
      Runs.history Host.step p.host ((w.mux side).inputs (place side) turn.2)
  else []

/-- What one of the two hosts was given to do, each time with its state. -/
def seen (start : World F) (events : List (Net.Side × Multiplexer.Event)) (side : Net.Side) :
    List (Host F × Host.Input) :=
  Runs.output step (seenOf place side) start events

def written (start : World F) (events : List (Net.Side × Multiplexer.Event)) (side : Net.Side)
    (id : UInt32) : List UInt8 :=
  (seen place start events side).flatMap fun x => x.1.conn.wrote id x.2

def read (start : World F) (events : List (Net.Side × Multiplexer.Event)) (side : Net.Side)
    (id : UInt32) : List UInt8 :=
  (seen place start events side).flatMap fun x => x.1.conn.returned id x.2

variable {cid place} {w w' : World F} {side : Net.Side} {event : Multiplexer.Event}

theorem step_cases (taken : w.step (side, event) = some w') :
    (w.mux side).step event = some (w'.mux side) ∧ w'.mux side.other = w.mux side.other := by
  obtain ⟨m, stepped, rfl⟩ := Option.map_eq_some_iff.mp taken
  cases side <;> exact ⟨stepped, rfl⟩

def Fit (w : World F) : Prop := ∀ side, (w.mux side).Fit

theorem Fit.step (fit : w.Fit) (brief : event.Brief) (taken : w.step (side, event) = some w') :
    w'.Fit := by
  obtain ⟨stepped, still⟩ := step_cases taken
  refine Net.Side.forall_of side ((fit side).step brief stepped) ?_
  rw [still]
  exact fit side.other

omit [Float64 F] in
theorem fit_start : (({} : World F)).Fit := by
  intro side
  cases side <;> exact Multiplexer.fit_new

/-- A connection stays where it is, and keeps its IDs. -/
theorem Fit.lasts (fit : w.Fit) (brief : event.Brief) (taken : w.step (side, event) = some w') :
    ∀ (actor : Net.Side) (i : Nat) (p : Peer F), (w.mux actor).peers[i]? = some p →
      ∃ p', (w'.mux actor).peers[i]? = some p' ∧ p.Same p' := by
  obtain ⟨stepped, still⟩ := step_cases taken
  refine Net.Side.forall_of side (fun i p found => ?_) (fun i p found => ?_)
  · obtain ⟨p', found', ran⟩ := (Multiplexer.advances_step stepped).old i p found
    exact ⟨p', found', (((fit side).peers i p found).run
      (Multiplexer.brief_peerEvents brief) ran).2⟩
  · rw [still]
    exact ⟨p, found, ⟨⟨rfl, rfl⟩, rfl⟩⟩

theorem Paired.earlier (fit : w.Fit) (brief : event.Brief)
    (taken : w.step (side, event) = some w') (paired : w'.Paired cid place) :
    w.Paired cid place := by
  have lasts := fit.lasts brief taken
  refine ⟨fun actor i p found named => ?_, fun actor p found => ?_⟩
  · obtain ⟨p', found', same⟩ := lasts actor i p found
    refine paired.alone actor i p' found' ?_
    rw [same.cidKey, same.remoteCID]
    exact named
  · obtain ⟨p', found', same⟩ := lasts actor (place actor) p found
    obtain ⟨key, remote, dialled⟩ := paired.own actor p' found'
    exact ⟨same.cidKey.symm.trans key, same.remoteCID.symm.trans remote,
      same.dialled.symm.trans dialled⟩

variable (place) in
/-- The connection on that side has sent the packet. -/
def Sent (w : World F) (side : Net.Side) (pkt : Packet) : Prop :=
  ∃ q, w.peer place side = some q ∧ q.host.sent pkt = true

variable (cid place) in
/-- What waits in the queue of one of the two, is in hand, or has come before its SYN,
the other has sent. -/
structure Queued (w : World F) : Prop where
  held : ∀ side p, w.peer place side = some p → p.AllPending (w.Sent place side.other)
  early : ∀ side, ∀ ep ∈ (w.mux side).buffered (cid side), w.Sent place side.other ep.pkt

omit [Float64 F] in
/-- What arrives for one of the two was sent by the other. -/
theorem Genuine.sent (fit : w.Fit) (paired : w.Paired cid place) {now : Time} {data : List UInt8}
    {addr : Addr} {challenge : Option (Vector UInt8 8)}
    (genuine : w.Genuine cid (side, .datagram now data addr challenge)) {pkt : Packet}
    (decoded : unmarshalPacket data = .ok pkt) (addressed : pkt.destinationCID = cid side) :
    w.Sent place side.other pkt := by
  rw [Genuine, decoded] at genuine
  obtain ⟨q, member, d, handed, rfl⟩ := genuine addressed
  obtain ⟨i, found⟩ := List.mem_iff_getElem?.mp member
  have legible := ((fit side.other).peers i q found).legible.wire d handed
  rw [unmarshalPacket_encoded d.packet legible.encodable, Except.ok.injEq] at decoded
  have remote : q.host.conn.remoteCID = cid side.other.other := by
    rw [← legible.destination, Net.Side.other_other, ← addressed, ← decoded]
  obtain rfl := paired.alone side.other i q found (.inr remote)
  exact ⟨q, found, Host.sent_iff.mpr ⟨d, handed, by rw [← decoded]⟩⟩

theorem brings_peerEvents (fit : w.Fit) (paired : w.Paired cid place)
    (genuine : w.Genuine cid (side, event)) (taken : w.step (side, event) = some w') :
    ∀ part ∈ (w.mux side).peerEvents (place side) event,
      part.Brings (w.Sent place side.other) ∧ part.Calls := by
  have brings : ∀ part ∈ (w.mux side).peerEvents (place side) event,
      part.Brings (w.Sent place side.other) := by
    have one {P : Prop} [Decidable P] {part : Peer.Event}
        (fine : P → part.Brings (w.Sent place side.other)) :
        ∀ other ∈ (if P then [part] else []), other.Brings (w.Sent place side.other) := by
      split
      · exact List.forall_mem_singleton.mpr (fine ‹P›)
      · exact List.forall_mem_nil _
    cases event with
    | datagram now data addr challenge =>
      rw [Multiplexer.peerEvents]
      split
      · exact List.forall_mem_nil _
      · rename_i pkt decoded
        refine one fun routed => ?_
        -- The table names the connection by its own ID.
        obtain ⟨p, found, key⟩ := (fit side).table _ (Tables.mem_entries_iff.mpr routed.2)
        exact genuine.sent fit paired decoded (key.symm.trans (paired.own side p found).1)
    | take | proceed | call => exact one fun _ => trivial
    | close now =>
      intro part member
      obtain ⟨e, -, rfl⟩ := List.mem_map.mp member
      trivial
    | accept | dial | idleRound => exact List.forall_mem_nil _
  exact fun part member =>
    ⟨brings part member, Multiplexer.calls_peerEvents (step_cases taken).1 part member⟩

/-- A connection that enters in the place of one of the two: the right one on a SYN of
the left one, or the left one when it is dialled. -/
inductive Enters (cid : Net.Side → ConnectionID) (place : Net.Side → Nat) (w : World F) :
    Net.Side → Peer F → Prop
  | accepted (p : Peer F) (addr : Addr) (now : Time)
    (host : p.host = (Peer.newPeer (cid .right) (cid .left) addr false now).host)
    (holds : p.AllPending (w.Sent place .left)) (sent : ∃ pkt, w.Sent place .left pkt) :
    Enters cid place w .right p
  | dialled (p : Peer F) (peerAddr : Addr) (now : Time)
    (host : ∀ addr accepted, p.host =
      (Net.opening (cid .left) (cid .right) addr peerAddr now accepted).left)
    (holds : p.AllPending (w.Sent place .right)) : Enters cid place w .left p

theorem Queued.enters (queued : w.Queued cid place) (fit : w.Fit) (paired : w.Paired cid place)
    (genuine : w.Genuine cid (side, event)) {p : Peer F}
    (own : p.cidKey = cid side ∧ p.host.conn.remoteCID = cid side.other ∧
      p.dialled = decide (side = .left))
    (entered : p ∈ (w.mux side).entered event) : Enters cid place w side p := by
  obtain ⟨key, remote, role⟩ := own
  cases event with
  | datagram now data addr challenge =>
    rw [Multiplexer.entered] at entered
    split at entered
    · cases entered
    · rename_i pkt decoded
      split at entered
      · obtain rfl := Option.some.inj entered
        have host := fun early => (Peer.foldl_enqueue (F := F) (p := (Peer.newPeer
          pkt.destinationCID pkt.sourceCID addr false now).enqueue pkt) early)
        rw [Peer.cidKey_foldl_enqueue, Peer.cidKey_enqueue] at key
        rw [(host _).1, Peer.host_enqueue] at remote
        rw [(host _).2, Peer.dialled_enqueue] at role
        have key : pkt.destinationCID = cid side := key
        have remote : pkt.sourceCID = cid side.other := remote
        obtain rfl : side = .right := by
          cases side with
          | left => cases role
          | right => rfl
        have sent := genuine.sent fit paired decoded key
        refine .accepted _ addr now ?_ ?_ ⟨pkt, sent⟩
        · rw [(host _).1, Peer.host_enqueue, key, remote]
          rfl
        · have fresh : (Peer.newPeer pkt.destinationCID pkt.sourceCID addr false now : Peer F).AllPending
              (w.Sent place .left) := ⟨List.forall_mem_nil _, List.forall_mem_nil _⟩
          refine (fresh.enqueue sent).foldl_enqueue ?_
          rw [key]
          exact queued.early .right
      · cases entered
  | dial now localCID remoteCID addr =>
    obtain rfl := Option.some.inj entered
    have key : localCID = cid side := key
    obtain rfl : side = .left := by
      cases side with
      | left => rfl
      | right => cases role
    obtain rfl : remoteCID = cid .right :=
      (Peer.speaks_syn localCID remoteCID addr now).ids.2.symm.trans remote
    subst key
    refine .dialled _ addr now (fun _ _ => ?_) ⟨List.forall_mem_nil _, List.forall_mem_nil _⟩
    unfold Net.opening
    rfl
  | accept | take | proceed | call | idleRound | close => cases entered

theorem peer_cases (place : Net.Side → Nat) (taken : w.step (side, event) = some w') :
    (∃ p p', w.peer place side = some p ∧ w'.peer place side = some p' ∧
      Runs.run Peer.step p ((w.mux side).peerEvents (place side) event) = some p') ∨
    (w.peer place side = none ∧ w'.peer place side = none) ∨
    ∃ p', w.peer place side = none ∧ w'.peer place side = some p' ∧
      p' ∈ (w.mux side).entered event := by
  have advances := Multiplexer.advances_step (step_cases taken).1
  cases before : w.peer place side with
  | some p =>
    obtain ⟨p', after, ran⟩ := advances.old (place side) p before
    exact .inl ⟨p, p', rfl, after, ran⟩
  | none =>
    cases after : w'.peer place side with
    | none => exact .inr (.inl ⟨rfl, rfl⟩)
    | some p' =>
      rcases advances.cases after with ⟨p, found, -⟩ | ⟨-, entered⟩
      · cases before.symm.trans found
      · exact .inr (.inr ⟨p', rfl, rfl, entered⟩)

theorem peer_other (place : Net.Side → Nat) (taken : w.step (side, event) = some w') :
    w'.peer place side.other = w.peer place side.other := by
  rw [peer, (step_cases taken).2]
  rfl

omit [Float64 F] in
theorem sent_mono {h h' : Host F} {pkt : Packet} (wire : h.conn.wire ⊆ h'.conn.wire)
    (sent : h.sent pkt = true) : h'.sent pkt = true := by
  obtain ⟨d, member, same⟩ := Host.sent_iff.mp sent
  exact Host.sent_iff.mpr ⟨d, wire member, same⟩

theorem Sent.step (taken : w.step (side, event) = some w') :
    ∀ actor pkt, w.Sent place actor pkt → w'.Sent place actor pkt := by
  refine Net.Side.forall_of side (fun pkt sent => ?_) (fun pkt sent => ?_)
  · obtain ⟨q, found, sent⟩ := sent
    rcases peer_cases place taken with ⟨p, p', before, after, ran⟩ | ⟨none, -⟩ | ⟨p', none, -⟩
    · obtain rfl := Option.some.inj (found.symm.trans before)
      exact ⟨p', after, sent_mono (Host.wire_subset_run (Peer.run_host ran)) sent⟩
    · cases none.symm.trans found
    · cases none.symm.trans found
  · rwa [Sent, peer_other place taken]

theorem Queued.buffered_step (queued : w.Queued cid place) (fit : w.Fit)
    (paired : w.Paired cid place) (genuine : w.Genuine cid (side, event))
    (taken : w.step (side, event) = some w') :
    ∀ ep ∈ (w'.mux side).buffered (cid side), w.Sent place side.other ep.pkt := by
  have old := queued.early side
  have stirs := Multiplexer.step_stirs (step_cases taken).1
  generalize w'.mux side = m' at stirs
  cases stirs with
  | buffer ep arrives =>
    intro kept member
    rw [Multiplexer.buffered, Multiplexer.lookup_bufferEarly] at member
    split at member
    · rename_i here
      rcases List.mem_append.mp member with before | new
      · exact old kept before
      · obtain rfl := List.mem_singleton.mp new
        cases event with
        | datagram now data addr challenge =>
          rw [Multiplexer.early] at arrives
          split at arrives
          · cases arrives
          · rename_i pkt decoded
            split at arrives
            · obtain rfl := Option.some.inj arrives
              exact genuine.sent fit paired decoded here.1.symm
            · cases arrives
        | _ => cases arrives
    · exact old kept member
  | create now pkt addr =>
    intro kept member
    rw [Multiplexer.buffered] at member
    cases found : ((w.mux side).create now pkt addr).earlyPackets.lookup (cid side) with
    | none =>
      rw [found] at member
      cases member
    | some entry =>
      rw [found] at member
      refine old kept ?_
      rw [Multiplexer.buffered, (Multiplexer.lookup_erase_eq_some found).2]
      exact member
  | dial => exact old
  | idle none idle =>
    rw [Multiplexer.buffered, idle.early]
    exact old

theorem Queued.step (queued : w.Queued cid place) (fit : w.Fit) (brief : event.Brief)
    (paired : w'.Paired cid place) (genuine : w.Genuine cid (side, event))
    (taken : w.step (side, event) = some w') : w'.Queued cid place := by
  have before := paired.earlier fit brief taken
  have grown : ∀ actor pkt, w.Sent place actor pkt → w'.Sent place actor pkt := Sent.step taken
  refine ⟨Net.Side.forall_of side (fun p' found => ?_) (fun p found => ?_),
    Net.Side.forall_of side (fun ep member => ?_) (fun ep member => ?_)⟩
  · rcases peer_cases place taken with ⟨p, q, old, new, ran⟩ | ⟨-, none⟩ | ⟨q, -, new, entered⟩
    · obtain rfl := Option.some.inj (new.symm.trans found)
      exact ((queued.held side p old).run
        (brings_peerEvents fit before genuine taken) ran).2.mono (grown side.other)
    · cases none.symm.trans found
    · obtain rfl := Option.some.inj (new.symm.trans found)
      cases queued.enters fit before genuine (paired.own side q found) entered with
      | accepted _ addr now host holds => exact holds.mono (grown .left)
      | dialled _ addr now host holds => exact holds.mono (grown .right)
  · rw [peer_other place taken] at found
    exact (queued.held side.other p found).mono (grown side.other.other)
  · exact grown side.other ep.pkt (queued.buffered_step fit before genuine taken ep member)
  · rw [(step_cases taken).2] at member
    exact grown side.other.other ep.pkt (queued.early side.other ep member)

variable (cid place) in
/-- How far the two connections have come: neither is there, the left one has been
dialled, or both are there. -/
inductive Meets (w : World F) (turns : List (Net.Side × Host.Input))
    (record : Net.Side → List (Host F × Host.Input)) : Prop
  | apart (left : w.peer place .left = none) (right : w.peer place .right = none)
    (none : turns = []) (unseen : ∀ side, record side = [])
  | dialled (p : Peer F) (left : w.peer place .left = some p) (right : w.peer place .right = none)
    (peerAddr : Addr) (now : Time)
    (follows : ∀ addr accepted, Net.Follows record
      (.opening (cid .left) (cid .right) addr peerAddr now accepted) turns
      ⟨p.host, (Peer.newPeer (cid .right) (cid .left) addr false accepted).host⟩)
  | both (p q : Peer F) (left : w.peer place .left = some p) (right : w.peer place .right = some q)
    (start : Net F) (begins : start.Begins) (follows : Net.Follows record start turns ⟨p.host, q.host⟩)

variable {turns : List (Net.Side × Host.Input)} {record : Net.Side → List (Host F × Host.Input)}

theorem Meets.goesOn (meets : w.Meets cid place turns record) {p p' : Peer F}
    {ins : List Host.Input}
    (before : w.peer place side = some p) (after : w'.peer place side = some p')
    (still : w'.peer place side.other = w.peer place side.other)
    (allowed : ∀ input ∈ ins, input.Allowed (w.Sent place side.other))
    (ran : Runs.run Host.step p.host ins = some p'.host) :
    w'.Meets cid place (turns ++ ins.map (side, ·)) (Function.update record side
      (record side ++ Runs.history Host.step p.host ins)) := by
  cases meets with
  | apart left right =>
    cases side with
    | left => cases left.symm.trans before
    | right => cases right.symm.trans before
  | dialled q left right peerAddr now follows =>
    cases side with
    | right => cases right.symm.trans before
    | left =>
      obtain rfl := Option.some.inj (left.symm.trans before)
      refine .dialled p' after (still.trans right) peerAddr now fun addr accepted => ?_
      refine (follows addr accepted).goesOn (fun input member => ?_) ran
      -- Nothing has come from a peer that is not there.
      refine (allowed input member).mono fun pkt sent => ?_
      obtain ⟨q', found, -⟩ := sent
      cases right.symm.trans found
  | both q r left right start begins follows =>
    have heard {s : Peer F} (other : w.peer place side.other = some s) (input : Host.Input)
        (member : input ∈ ins) : input.Allowed fun pkt => s.host.sent pkt = true := by
      refine (allowed input member).mono fun pkt sent => ?_
      obtain ⟨s', found, sent⟩ := sent
      obtain rfl := Option.some.inj (other.symm.trans found)
      exact sent
    cases side with
    | left =>
      obtain rfl := Option.some.inj (left.symm.trans before)
      exact .both p' r after (still.trans right) start begins (follows.goesOn (heard right) ran)
    | right =>
      obtain rfl := Option.some.inj (right.symm.trans before)
      exact .both q p' (still.trans left) after start begins (follows.goesOn (heard left) ran)

theorem Meets.enters (meets : w.Meets cid place turns record) {p : Peer F}
    (before : w.peer place side = none) (after : w'.peer place side = some p)
    (still : w'.peer place side.other = w.peer place side.other)
    (enters : Enters cid place w side p) : w'.Meets cid place turns record := by
  cases enters with
  | accepted p addr now host holds sent =>
    obtain ⟨pkt, q, found, -⟩ := sent
    cases meets with
    | apart left => cases left.symm.trans found
    | both q r left right => cases before.symm.trans right
    | dialled q left right peerAddr dialled follows =>
      refine .both q p (still.trans left) after _
        ⟨cid .left, cid .right, addr, peerAddr, dialled, now, rfl⟩ ?_
      rw [host]
      exact follows addr now
  | dialled p peerAddr now host holds =>
    cases meets with
    | dialled q left => cases before.symm.trans left
    | both q r left => cases before.symm.trans left
    | apart left right none unseen =>
      refine .dialled p after (still.trans right) peerAddr now fun addr accepted => ⟨?_, ?_⟩
      · rw [none, Runs.run_nil, host addr accepted]
        rfl
      · intro side
        rw [unseen, none]
        rfl

theorem Meets.step (meets : w.Meets cid place turns record) (queued : w.Queued cid place)
    (fit : w.Fit) (brief : event.Brief) (paired : w'.Paired cid place)
    (genuine : w.Genuine cid (side, event)) (taken : w.step (side, event) = some w') :
    w'.Meets cid place (turns ++ w.turnsOf place (side, event))
      fun actor => record actor ++ w.seenOf place actor (side, event) := by
  have before := paired.earlier fit brief taken
  have still := peer_other place taken
  have other : w.seenOf place side.other (side, event) = [] :=
    if_neg (Net.Side.other_ne side).symm
  rcases peer_cases place taken with
    ⟨p, p', old, new, ran⟩ | ⟨absent, later⟩ | ⟨p', absent, new, entered⟩
  · have ins : (w.mux side).inputs (place side) event = Runs.output Peer.step Peer.inputs p
        ((w.mux side).peerEvents (place side) event) := by
      rw [Multiplexer.inputs, show (w.mux side).peers[place side]? = some p from old]
      rfl
    have own : w.seenOf place side (side, event) =
        Runs.history Host.step p.host ((w.mux side).inputs (place side) event) := by
      rw [seenOf, if_pos rfl, old]
      rfl
    have record' : (fun actor => record actor ++ w.seenOf place actor (side, event)) =
        Function.update record side (record side ++ w.seenOf place side (side, event)) := by
      refine funext (Net.Side.forall_of side ?_ ?_)
      · rw [Function.update_self]
      · rw [Function.update_of_ne (Net.Side.other_ne side), other, List.append_nil]
    rw [record', own, turnsOf]
    refine meets.goesOn old new still ?_ ?_
    · rw [ins]
      exact ((queued.held side p old).run (brings_peerEvents fit before genuine taken) ran).1
    · rw [ins]
      exact Peer.run_host ran
  all_goals
    -- A connection that is not there is given nothing to do.
    have none : w.turnsOf place (side, event) = [] := by
      rw [turnsOf, Multiplexer.inputs, show (w.mux side).peers[place side]? = none from absent]
      rfl
    have unseen : ∀ actor, w.seenOf place actor (side, event) = [] := by
      refine Net.Side.forall_of side ?_ other
      rw [seenOf, if_pos rfl, absent]
      rfl
    simp only [none, unseen, List.append_nil]
  · have same : ∀ actor, w'.peer place actor = w.peer place actor :=
      Net.Side.forall_of side (later.trans absent.symm) still
    cases meets with
    | apart left right none unseen =>
      exact .apart ((same .left).trans left) ((same .right).trans right) none unseen
    | dialled q left right peerAddr now follows =>
      exact .dialled q ((same .left).trans left) ((same .right).trans right) peerAddr now follows
    | both q r left right start begins follows =>
      exact .both q r ((same .left).trans left) ((same .right).trans right) start begins follows
  · exact meets.enters absent new still
      (queued.enters fit before genuine (paired.own side p' new) entered)

theorem meets_run {events : List (Net.Side × Multiplexer.Event)}
    (brief : ∀ turn ∈ events, turn.2.Brief)
    (genuine : Runs.Along step (Genuine cid) ({} : World F) events)
    (reached : Runs.run step {} events = some w) (paired : w.Paired cid place) :
    w.Meets cid place (World.turns place ({} : World F) events) (seen place {} events) := by
  have each : Runs.Along step (fun (_ : World F) turn => turn.2.Brief) {} events :=
    Runs.along_of_forall (fun turn member _ => brief turn member) _
  refine ((Runs.trace_invariant (fun events w => w.Fit ∧ (w.Paired cid place →
    w.Queued cid place ∧ w.Meets cid place (World.turns place ({} : World F) events) (seen place {} events)))
    ⟨fit_start, fun _ => ?_⟩ ?_ (each.and genuine) reached).2 paired).2
  · refine ⟨⟨fun side p found => ?_, fun side => ?_⟩, .apart rfl rfl rfl fun _ => rfl⟩
    · cases side <;> cases found
    · cases side <;> exact List.forall_mem_nil _
  · rintro events w ⟨side, event⟩ w' reached ⟨fit, before⟩ ⟨brief, genuine⟩ taken
    refine ⟨fit.step brief taken, fun paired => ?_⟩
    obtain ⟨queued, meets⟩ := before (paired.earlier fit brief taken)
    refine ⟨queued.step fit brief paired genuine taken, ?_⟩
    have record : seen place ({} : World F) (events ++ [(side, event)]) = fun actor =>
        seen place {} events actor ++ w.seenOf place actor (side, event) :=
      funext fun actor => Runs.output_append_singleton reached
    rw [World.turns, Runs.output_append_singleton reached, record]
    exact meets.step queued fit brief paired genuine taken

section

variable {events : List (Net.Side × Multiplexer.Event)} (brief : ∀ turn ∈ events, turn.2.Brief)
  (genuine : Runs.Along step (Genuine cid) ({} : World F) events)
  (reached : Runs.run step {} events = some w) (paired : w.Paired cid place) {p q : Peer F}
  (left : w.peer place .left = some p) (right : w.peer place .right = some q)

include brief genuine reached paired left right

theorem follows_run : ∃ start : Net F, start.Begins ∧
    Net.Follows (seen place {} events) start (World.turns place ({} : World F) events)
      ⟨p.host, q.host⟩ := by
  cases meets_run brief genuine reached paired with
  | apart none => cases none.symm.trans left
  | dialled _ _ none => cases none.symm.trans right
  | both p' q' left' right' start begins follows =>
    obtain rfl := Option.some.inj (left'.symm.trans left)
    obtain rfl := Option.some.inj (right'.symm.trans right)
    exact ⟨start, begins, follows⟩

/-- Among all that happens on the two sockets, the two connections are an exchange:
their own part of it is a run from a connection that was dialled and accepted, in
which neither handles what the other has not sent. -/
theorem pair_refines_net :
    ∃ start : Net F, start.Begins ∧
      Runs.run Net.step start (World.turns place ({} : World F) events) =
        some ⟨p.host, q.host⟩ := by
  obtain ⟨start, begins, follows⟩ := follows_run brief genuine reached paired left right
  exact ⟨start, begins, follows.ran⟩

end

/-- How much the applications have given to writes. -/
def given (turns : List (Net.Side × Multiplexer.Event)) : Nat :=
  (turns.map fun turn => turn.2.given).sum

theorem length_seenOf_le (fit : w.Fit) (side : Net.Side) (id : UInt32)
    (turn : Net.Side × Multiplexer.Event) :
    ((w.seenOf place side turn).flatMap fun x => x.1.conn.wrote id x.2).length ≤ turn.2.given := by
  rw [seenOf]
  split
  · cases found : w.peer place side with
    | none => exact Nat.zero_le _
    | some p =>
      have own (ins : List Host.Input) : Runs.output Host.step (fun h => h.conn.wrote id) p.host ins =
          (Runs.history Host.step p.host ins).flatMap fun x => x.1.conn.wrote id x.2 :=
        Runs.output_eq_flatMap _ _
      rw [Option.elim_some, ← own]
      refine (Runs.length_output_le (fun h input => h.conn.length_wrote_le id input) _ _).trans ?_
      rw [Multiplexer.inputs, show (w.mux side).peers[place side]? = some p from found]
      exact (((fit side).peers _ p found).holds.given_output _).trans
        (Multiplexer.given_peerEvents _ _)
  · exact Nat.zero_le _

theorem length_written_le {events : List (Net.Side × Multiplexer.Event)}
    (brief : ∀ turn ∈ events, turn.2.Brief) (reached : Runs.run step {} events = some w)
    (side : Net.Side) (id : UInt32) :
    (written place ({} : World F) events side id).length ≤ given events := by
  refine (Runs.trace_invariant (fun events (w : World F) => w.Fit ∧
    (written place ({} : World F) events side id).length ≤ given events) ⟨fit_start, Nat.le_refl 0⟩
    ?_ (Runs.along_of_forall (fun turn member _ => brief turn member) _) reached).2
  rintro events w ⟨actor, event⟩ w' reached ⟨fit, bound⟩ brief taken
  refine ⟨fit.step brief taken, ?_⟩
  rw [written, seen, Runs.output_append_singleton reached, List.flatMap_append, List.length_append,
    given, List.map_append, List.sum_append, List.map_singleton, List.sum_singleton]
  exact Nat.add_le_add bound (length_seenOf_le fit side id (actor, event))

/-- What an application has read of a stream of one of the two connections is the
front of what the other's wrote on its counterpart, whatever else is sent to the two
sockets. -/
theorem sockets_deliver_front {events : List (Net.Side × Multiplexer.Event)}
    (brief : ∀ turn ∈ events, turn.2.Brief)
    (genuine : Runs.Along step (Genuine cid) ({} : World F) events)
    (reached : Runs.run step {} events = some w) (paired : w.Paired cid place)
    (little : given events < 2 ^ 64) {p q : Peer F} (here : w.peer place side = some p)
    (there : w.peer place side.other = some q) {id : UInt32} {t : Stream}
    (found : p.host.conn.streams.lookup id = some t) :
    (∀ source s, q.host.conn.streams.lookup source = some s → s.Counterpart t →
      read place ({} : World F) events side id <+:
        written place ({} : World F) events side.other source) ∧
    ((∀ source s, q.host.conn.streams.lookup source = some s → ¬ s.Counterpart t) →
      read place ({} : World F) events side id = []) := by
  obtain ⟨n, start, begins, follows, own, other⟩ : ∃ (n start : Net F), start.Begins ∧
      Net.Follows (seen place {} events) start (World.turns place ({} : World F) events) n ∧
      n.host side = p.host ∧ n.host side.other = q.host := by
    cases side with
    | left =>
      obtain ⟨start, begins, follows⟩ := follows_run brief genuine reached paired here there
      exact ⟨_, start, begins, follows, rfl, rfl⟩
    | right =>
      obtain ⟨start, begins, follows⟩ := follows_run brief genuine reached paired there here
      exact ⟨_, start, begins, follows, rfl, rfl⟩
  -- What the two hosts saw among all events is what they see in their own run.
  have writes (side : Net.Side) (id : UInt32) : written place ({} : World F) events side id =
      start.written (World.turns place ({} : World F) events) side id := by
    rw [written, follows.seen, Net.written, Runs.output_eq_flatMap]
  have reads (side : Net.Side) (id : UInt32) : read place ({} : World F) events side id =
      start.read (World.turns place ({} : World F) events) side id := by
    rw [read, follows.seen, Net.read, Runs.output_eq_flatMap]
  have finite : start.Finite (World.turns place ({} : World F) events) := fun side id => by
    rw [← writes]
    exact (length_written_le brief reached side id).trans_lt little
  have found' : (n.conn side).streams.lookup id = some t := by
    rw [Net.conn, own]
    exact found
  have front := (Net.faithful_run begins follows.ran finite).front found'
  rw [Net.conn, other] at front
  simp only [reads, writes]
  exact front

/-- A turn, with the packet in the place of the datagram that carries it. -/
abbrev Letter := Net.Side × (Packet ⊕ Multiplexer.Event)

def Letter.post : Letter → Net.Side × Multiplexer.Event
  | (side, .inl pkt) => (side, Register.arrival pkt)
  | (side, .inr event) => (side, event)

def Letter.Encodable : Letter → Prop
  | (_, .inl pkt) => pkt.Encodable
  | (_, .inr _) => True

/-- The packet is routed as it is decoded. -/
def deliver (w : World F) : Letter → Option (World F)
  | (side, .inl pkt) => some (w.set side ((w.mux side).route 0 pkt.arrived "peer" none))
  | (side, .inr event) => w.step (side, event)

/-- The packet is for neither of the two, or was sent. -/
def honest (cid : Net.Side → ConnectionID) (w : World F) : Letter → Bool
  | (side, .inl pkt) => pkt.destinationCID ≠ cid side ||
    (w.mux side.other).peers.any fun p => p.host.conn.wire.any fun d => d.packet = pkt
  | (_, .inr (.datagram ..)) => false
  | (_, .inr _) => true

theorem step_post {x : Letter} (encodable : x.Encodable) : w.step x.post = w.deliver x := by
  obtain ⟨side, pkt | event⟩ := x
  · exact congrArg (fun m => some (w.set side m))
      (Multiplexer.handleDatagram_encoded encodable 0 "peer" none)
  · rfl

theorem run_post {letters : List Letter} (encodable : ∀ x ∈ letters, x.Encodable) (w : World F) :
    Runs.run step w (letters.map Letter.post) = Runs.run deliver w letters := by
  induction letters generalizing w with
  | nil => rfl
  | cons x rest ih =>
    obtain ⟨here, later⟩ := List.forall_mem_cons.mp encodable
    rw [List.map_cons, Runs.run_cons, Runs.run_cons, step_post here]
    exact congrArg _ (funext fun s => ih later s)

omit [Float64 F] in
theorem genuine_post {x : Letter} (encodable : x.Encodable) (honest : w.honest cid x = true) :
    w.Genuine cid x.post := by
  obtain ⟨side, pkt | event⟩ := x
  · rw [Letter.post, Register.arrival, Genuine, unmarshalPacket_encoded pkt encodable]
    intro addressed
    rcases Bool.or_eq_true_iff.mp honest with other | sent
    · exact absurd addressed (of_decide_eq_true other)
    · simp only [List.any_eq_true, decide_eq_true_eq] at sent
      obtain ⟨p, member, d, handed, rfl⟩ := sent
      exact ⟨p, member, d, handed, rfl⟩
  · cases event with
    | datagram => cases honest
    | _ => trivial

theorem along_post {letters : List Letter} (encodable : ∀ x ∈ letters, x.Encodable)
    {w : World F} (along : Runs.Along deliver (fun w x => w.honest cid x = true) w letters) :
    Runs.Along step (Genuine cid) w (letters.map Letter.post) := by
  induction letters generalizing w with
  | nil => trivial
  | cons x rest ih =>
    obtain ⟨here, later⟩ := List.forall_mem_cons.mp encodable
    refine ⟨genuine_post here along.1, fun s taken => ih later (along.2 s ?_)⟩
    rw [← step_post here]
    exact taken

def visitCID : Net.Side → ConnectionID
  | .left => ⟨[1, 1, 1, 1, 1, 1, 1, 1], by decide⟩
  | .right => ⟨[2, 2, 2, 2, 2, 2, 2, 2], by decide⟩

/-- A stranger has come first on the right. -/
def visitPlace : Net.Side → Nat
  | .left => 0
  | .right => 1

/-- The left side dials, opens a stream and writes, and the right side reads. -/
def visit : List Letter :=
  let strange : ConnectionID := ⟨[3, 3, 3, 3, 3, 3, 3, 3], by decide⟩
  let between := Packet.Stamp.between (visitCID .left) (visitCID .right)
  let handle : List Multiplexer.Event := [.take 1, .proceed 1 0, .proceed 1 0, .proceed 1 0]
  [(.left, .inr (.dial 0 (visitCID .left) (visitCID .right) "peer")),
    (.right, .inl (Packet.Stamp.between strange strange 0 0 0 [.stream ⟨false, true, 0, []⟩])),
    (.right, .inl (between 0 0 0 [.stream ⟨false, true, 0, []⟩])),
    (.left, .inr (.call 0 .openStream)), (.left, .inr (.call 0 (.write 0 1 true [7]))),
    (.right, .inl (between 1 0 1 [.stream ⟨false, true, 0, [7]⟩]))] ++
    (handle ++ handle).map (fun event => (Net.Side.right, .inr event)) ++
    [(.right, .inr (.call 1 (.read 0 2 10 false)))]

theorem encodable_visit : ∀ x ∈ visit, x.Encodable := by
  have short (localCID remoteCID : ConnectionID) (seq src : UInt32) (data : List UInt8)
      (short : data.length ≤ 1) :
      (Packet.Stamp.between localCID remoteCID seq 0 src [.stream ⟨false, true, 0, data⟩]).Encodable := by
    refine (Packet.legible_of_data ?_).encodable
    show data.length + 100 ≤ 1472
    omega
  simp [visit, Letter.Encodable, short]

theorem brief_visit : ∀ turn ∈ visit.map Letter.post, turn.2.Brief := by
  simp [visit, Letter.post, Register.arrival, Multiplexer.Event.Brief, Host.Input.Brief]

theorem genuine_visit :
    Runs.Along step (Genuine visitCID) ({} : World ℚ) (visit.map Letter.post) :=
  along_post encodable_visit (by decide +kernel)

/-- The connections on both sides, by their IDs and whether they were dialled. -/
def roles (w : World F) (side : Net.Side) : List (ConnectionID × ConnectionID × Bool) :=
  (w.mux side).peers.map fun p => (p.cidKey, p.host.conn.remoteCID, p.dialled)

omit [Float64 F] in
theorem paired_visit {strange : ConnectionID}
    (other : strange ≠ visitCID .left ∧ strange ≠ visitCID .right)
    (left : w.roles .left = [(visitCID .left, visitCID .right, true)])
    (right : w.roles .right =
      [(strange, strange, false), (visitCID .right, visitCID .left, false)]) :
    w.Paired visitCID visitPlace := by
  have role {side : Net.Side} {i : Nat} {p : Peer F} (found : (w.mux side).peers[i]? = some p) :
      (w.roles side)[i]? = some (p.cidKey, p.host.conn.remoteCID, p.dialled) := by
    rw [roles, List.getElem?_map, found]
    rfl
  have parts {a b : ConnectionID} {c : Bool} {p : Peer F}
      (same : some (a, b, c) = some (p.cidKey, p.host.conn.remoteCID, p.dialled)) :
      p.cidKey = a ∧ p.host.conn.remoteCID = b ∧ p.dialled = c := by
    simp only [Option.some.injEq, Prod.mk.injEq] at same
    exact ⟨same.1.symm, same.2.1.symm, same.2.2.symm⟩
  constructor
  · intro side i p found named
    have role := role found
    cases side with
    | left =>
      rw [left] at role
      cases i with
      | zero => rfl
      | succ i => cases role
    | right =>
      rw [right] at role
      match i with
      | 0 =>
        obtain ⟨key, remote, -⟩ := parts role
        rw [key, remote] at named
        exact absurd named (not_or.mpr ⟨other.2, other.1⟩)
      | 1 => rfl
      | i + 2 => cases role
  · intro side p found
    have role := role found
    cases side with
    | left =>
      rw [left] at role
      exact parts role
    | right =>
      rw [right] at role
      exact parts role

theorem run_visit : ∃ (w : World ℚ) (p q : Peer ℚ) (s t : Stream),
    Runs.run step {} (visit.map Letter.post) = some w ∧ w.Paired visitCID visitPlace ∧
      w.peer visitPlace .left = some p ∧ w.peer visitPlace .right = some q ∧
      p.host.conn.streams.lookup 1 = some s ∧ q.host.conn.streams.lookup 2 = some t ∧
      s.Counterpart t := by
  have passes : (Runs.run deliver ({} : World ℚ) visit).any (fun w =>
      decide (w.roles .left = [(visitCID .left, visitCID .right, true)]) &&
      decide (w.roles .right = [(⟨[3, 3, 3, 3, 3, 3, 3, 3], by decide⟩,
        ⟨[3, 3, 3, 3, 3, 3, 3, 3], by decide⟩, false), (visitCID .right, visitCID .left, false)]) &&
      (w.peer visitPlace .left).any fun p => (w.peer visitPlace .right).any fun q =>
        (p.host.conn.streams.lookup 1).any fun s => (q.host.conn.streams.lookup 2).any fun t =>
          decide (s.Counterpart t)) = true := by
    decide +kernel
  obtain ⟨w, reached, passes⟩ := Runs.reaches_of_any passes
  obtain ⟨roles, passes⟩ := Bool.and_eq_true_iff.mp passes
  obtain ⟨left, right⟩ := Bool.and_eq_true_iff.mp roles
  obtain ⟨p, here, passes⟩ := (Option.any_eq_true _ _).mp passes
  obtain ⟨q, there, passes⟩ := (Option.any_eq_true _ _).mp passes
  obtain ⟨s, own, passes⟩ := (Option.any_eq_true _ _).mp passes
  obtain ⟨t, far, passes⟩ := (Option.any_eq_true _ _).mp passes
  exact ⟨w, p, q, s, t, (run_post encodable_visit {}).trans reached,
    paired_visit (by decide) (of_decide_eq_true left) (of_decide_eq_true right), here, there, own,
    far, of_decide_eq_true passes⟩

theorem pair_refines_net_visit :
    ∃ (start n : Net ℚ), start.Begins ∧ Runs.run Net.step start
      (World.turns visitPlace ({} : World ℚ) (visit.map Letter.post)) = some n := by
  obtain ⟨w, p, q, s, t, reached, paired, here, there, -⟩ := run_visit
  obtain ⟨start, begins, ran⟩ := pair_refines_net brief_visit genuine_visit reached paired here there
  exact ⟨start, _, begins, ran⟩

theorem sockets_deliver_front_visit :
    read visitPlace ({} : World ℚ) (visit.map Letter.post) .right 2 <+:
      written visitPlace ({} : World ℚ) (visit.map Letter.post) .left 1 := by
  obtain ⟨w, p, q, s, t, reached, paired, here, there, own, far, counterpart⟩ := run_visit
  have little : given (visit.map Letter.post) < 2 ^ 64 := by
    simp [visit, given, Letter.post, Register.arrival, Multiplexer.Event.given, Host.Input.given]
  exact (sockets_deliver_front brief_visit genuine_visit reached paired little there here far).1 1 s
    own counterpart

end World

end Udx

import Udx.Acceptance
import Udx.PathMigration

set_option autoImplicit false

/- Answering a challenge. The read loop tells the connection where each datagram
came from before the connection's own goroutine handles it, and a datagram from
an address whose challenge is as old as `pathChallengeRetry` has the address
challenged anew. So the answer can replace the challenge it answers. -/

namespace Udx

variable {F : Type} [Float64 F]

namespace Host

variable {h h' : Host F} {addr : Addr} {data : Vector UInt8 8}

/-- The connection waits for the answer to its challenge to the address, or has
moved there. -/
def Awaits (h : Host F) (addr : Addr) (data : Vector UInt8 8) : Prop :=
  (h.conn.pendingAddr = some addr ∧ h.conn.pendingChallenge = data) ∨
    (h.conn.remoteAddr = addr ∧ h.conn.pendingAddr = none)

/-- An input that leaves the challenge to the address standing: a packet comes
from where the connection is or soon enough from the address, and no call of
`InitiatePathMigration` takes the connection away once it has moved there. -/
def KeepsChallenge (h : Host F) (addr : Addr) : Input → Prop
  | .observeAddr now source _ =>
    source = some h.conn.remoteAddr ∨
      source = some addr ∧ now - h.conn.pendingSentAt < pathChallengeRetry
  | .answer i => ∀ caller ∈ h.callers[i]?, h.conn.pathChallengeResp = some caller.1 →
    h.conn.remoteAddr = addr → caller.2 = addr
  | _ => True

omit [Float64 F] in
theorem Awaits.congr {c : Connection F} (awaits : h.Awaits addr data)
    (same : c.path = h.conn.path) (challenges callers : List (Vector UInt8 8 × Addr)) :
    Awaits (⟨c, challenges, callers⟩ : Host F) addr data := by
  have remote : c.remoteAddr = h.conn.remoteAddr := congrArg Connection.Path.remoteAddr same
  have pending : c.pendingAddr = h.conn.pendingAddr := congrArg Connection.Path.pendingAddr same
  have challenge : c.pendingChallenge = h.conn.pendingChallenge :=
    congrArg Connection.Path.pendingChallenge same
  simpa only [Awaits, remote, pending, challenge] using awaits

omit [Float64 F] in
theorem Awaits.observeAddr {now : Time} {source : Option Addr}
    {challenge : Option (Vector UInt8 8)} (awaits : h.Awaits addr data)
    (keeps : h.KeepsChallenge addr (.observeAddr now source challenge)) :
    h.conn.observeAddr now source challenge = (h.conn, none) := by
  rcases keeps with rfl | ⟨rfl, soon⟩
  · exact if_pos rfl
  · rcases awaits with ⟨pending, -⟩ | ⟨moved, -⟩
    · unfold Connection.observeAddr
      dsimp only
      split
      · rfl
      · rw [if_pos ⟨pending, soon⟩]
    · exact if_pos moved.symm

theorem Awaits.step {input : Input} (awaits : h.Awaits addr data)
    (keeps : h.KeepsChallenge addr input)
    (taken : h.step input = some h') : h'.Awaits addr data := by
  -- `Effect` does not say when an address is challenged, so this input comes apart
  by_cases observes : ∃ now source challenge, input = .observeAddr now source challenge
  · obtain ⟨now, source, challenge, rfl⟩ := observes
    have same : (h.conn.observeAddr now source challenge).1.path = h.conn.path := by
      rw [awaits.observeAddr keeps]
    obtain rfl := Option.some.inj taken
    exact awaits.congr same _ _
  cases step_effect taken with
  | serve callers changes => exact awaits.congr changes.serves.path _ callers
  | enter now pkt f _ _ _ changes => exact awaits.congr changes.serves_entered.path _ _
  | close now code reason announce =>
    exact awaits.congr (Connection.serves_closeInternal now code reason announce).path _ _
  | ack now pkt f =>
    exact awaits.congr (Connection.keeps_handleAckFrame now f).delivers.path _ _
  | openStream | raise | arrive | respond | reject => exact awaits
  | challenge i data addr => exact awaits.congr (h.conn.path_sendControlTo _ addr) _ _
  | pend now source challenge => exact absurd ⟨now, _, _, rfl⟩ observes
  | move now pkt new waits =>
    rcases awaits with ⟨pending, -⟩ | ⟨-, idle⟩
    · exact .inr ⟨Option.some.inj (waits.symm.trans pending), rfl⟩
    · cases waits.symm.trans idle
  | finish i challenge new waits answered =>
    rcases awaits with pending | ⟨moved, idle⟩
    · exact .inl pending
    · exact .inr ⟨keeps (challenge, new) waits answered moved, idle⟩

omit [Float64 F] in
theorem pending_of_challenged {c : Connection F} {now : Time} {challenge : Option (Vector UInt8 8)}
    (challenged : (c.observeAddr now (some addr) challenge).2 = some (data, addr)) :
    (c.observeAddr now (some addr) challenge).1.pendingAddr = some addr ∧
      (c.observeAddr now (some addr) challenge).1.pendingChallenge = data := by
  unfold Connection.observeAddr at challenged ⊢
  dsimp only at challenged ⊢
  split at challenged
  · cases challenged
  · rename_i other
    rw [if_neg other]
    split at challenged
    · cases challenged
    · rename_i due
      rw [if_neg due]
      cases challenge with
      | none => cases challenged
      | some new => exact ⟨rfl, congrArg Prod.fst (Option.some.inj challenged)⟩

/-- The answer moves the connection, if it has not moved yet. -/
theorem Awaits.answered {now : Time} {pkt : Packet} (awaits : h.Awaits addr data)
    (taken : h.step (.frame now pkt (.pathResponse data)) = some h') :
    h'.conn.remoteAddr = addr := by
  obtain rfl := Option.some.inj taken
  simp only [Connection.handleFrame, Connection.completeMigration]
  rcases awaits with ⟨pending, rfl⟩ | ⟨moved, idle⟩
  · simp [pending]
  · simpa [idle] using moved

end Host

namespace Multiplexer

variable {m m' : Multiplexer F} {i : Nat} {p q : Peer F} {event : Event} {addr : Addr}
  {data : Vector UInt8 8}

/-- The connection a datagram is for, if it is registered. -/
def routed (m : Multiplexer F) (data : List UInt8) : Option Nat :=
  match unmarshalPacket data with
  | .error _ => none
  | .ok pkt =>
    if pkt.version ≠ versionCurrent then none else m.connections.lookup pkt.destinationCID

/-- What an event can do to the connection `i` and to the packet in its hand. -/
inductive Turn (m : Multiplexer F) (i : Nat) (p : Peer F) : Event → Peer F → Prop
  | rest {event : Event} {q : Peer F} (host : q.host = p.host) (inHand : q.inHand = p.inHand) :
    Turn m i p event q
  | observe {q : Peer F} (now : Time) (data : List UInt8) (source : Addr)
    (challenge : Option (Vector UInt8 8)) (routed : m.routed data = some i)
    (observed : p.host.step (.observeAddr now (some source) challenge) = some q.host)
    (inHand : q.inHand = p.inHand) : Turn m i p (.datagram now data source challenge) q
  | take {q : Peer F} (pkt : Packet) (host : q.host = p.host) (inHand : q.inHand = pkt.handling) :
    Turn m i p (.take i) q
  | proceed {q : Peer F} (now : Time) (step : Time → Host.Input)
    (inHand : p.inHand = step :: q.inHand) (stepped : p.host.step (step now) = some q.host) :
    Turn m i p (.proceed i now) q
  | call {q : Peer F} (input : Host.Input) (isCall : input.isCall)
    (stepped : p.host.step input = some q.host) (inHand : q.inHand = p.inHand) :
    Turn m i p (.call i input) q
  | close {q : Peer F} (now : Time) (path : q.host.conn.path = p.host.conn.path)
    (inHand : q.inHand = p.inHand) : Turn m i p (.close now) q

omit [Float64 F] in
theorem inHand_enqueue (pkt : Packet) : (p.enqueue pkt).inHand = p.inHand := by
  unfold Peer.enqueue
  split <;> rfl

/-- The connection a datagram is for observes its source; the others do not. -/
theorem peer_handleDatagram (now : Time) (data : List UInt8) (source : Addr)
    (challenge : Option (Vector UInt8 8)) (found : m.peers[i]? = some p) :
    ∃ q, (m.handleDatagram now data source challenge).peers[i]? = some q ∧ q.inHand = p.inHand ∧
      q.host = if m.routed data = some i then (p.observeAddr now source challenge).host
        else p.host := by
  unfold handleDatagram routed
  cases unmarshalPacket data with
  | error => exact ⟨p, found, rfl, rfl⟩
  | ok pkt =>
    unfold route
    dsimp only
    by_cases version : pkt.version ≠ versionCurrent
    · simp only [if_pos version]
      exact ⟨p, found, rfl, rfl⟩
    · simp only [if_neg version]
      cases m.connections.lookup pkt.destinationCID with
      | some j =>
        dsimp only
        rw [List.getElem?_modify, found]
        by_cases same : j = i
        · subst same
          refine ⟨(p.observeAddr now source challenge).enqueue pkt, by simp,
            inHand_enqueue pkt, ?_⟩
          rw [if_pos rfl, Peer.host_enqueue]
        · exact ⟨p, by simp [same], rfl, by simp [same]⟩
      | none =>
        refine ⟨p, ?_, rfl, rfl⟩
        dsimp only
        split
        · unfold bufferEarly
          split
          · dsimp only
            split <;> exact found
          · exact found
        · exact (List.getElem?_append_left (List.getElem?_eq_some_iff.mp found).1).trans found

theorem turn_take {j : Nat} (taken : m.take j = some m') (found : m.peers[i]? = some p) :
    ∃ q, m'.peers[i]? = some q ∧ Turn m i p (.take j) q := by
  simp only [take, Option.bind_eq_bind, Option.bind_eq_some_iff] at taken
  obtain ⟨p', found', out⟩ := taken
  split at out
  · rename_i pkt rest _ _
    obtain rfl := Option.some.inj out
    by_cases same : j = i
    · subst same
      obtain rfl := Option.some.inj (found'.symm.trans found)
      exact ⟨_, List.getElem?_set_self (List.getElem?_eq_some_iff.mp found).1,
        .take pkt rfl rfl⟩
    · exact ⟨p, (List.getElem?_set_ne same).trans found, .rest rfl rfl⟩
  · cases out

theorem peer_onHost {j : Nat} {input : Host.Input} (taken : m.onHost j input = some m')
    (found : m.peers[i]? = some p) :
    ∃ q, m'.peers[i]? = some q ∧ q.inHand = p.inHand ∧
      (j ≠ i ∧ q.host = p.host ∨ j = i ∧ p.host.step input = some q.host) := by
  obtain ⟨p', h, found', stepped, peers, -⟩ := onHost_cases taken
  rw [peers]
  by_cases same : j = i
  · subst same
    obtain rfl := Option.some.inj (found'.symm.trans found)
    exact ⟨_, List.getElem?_set_self (List.getElem?_eq_some_iff.mp found).1, rfl,
      .inr ⟨rfl, stepped⟩⟩
  · exact ⟨p, (List.getElem?_set_ne same).trans found, rfl, .inl ⟨same, rfl⟩⟩

theorem peer_proceed {now : Time} (taken : m.proceed i now = some m')
    (found : m.peers[i]? = some p) :
    ∃ q step, m'.peers[i]? = some q ∧ p.inHand = step :: q.inHand ∧
      p.host.step (step now) = some q.host := by
  obtain ⟨p', step, rest, found', inHand, stepped⟩ := proceed_cases taken
  obtain rfl := Option.some.inj (found'.symm.trans found)
  have inside := (List.getElem?_eq_some_iff.mp found).1
  obtain ⟨q, there, left, ⟨other, -⟩ | ⟨-, stepped⟩⟩ :=
    peer_onHost stepped (List.getElem?_set_self inside)
  · exact absurd rfl other
  · exact ⟨q, step, there, by rw [left, inHand], stepped⟩

theorem turn_close (now : Time) (found : m.peers[i]? = some p) :
    ∃ q, (m.close now).peers[i]? = some q ∧ Turn m i p (.close now) q := by
  have all (js : List Nat) (m : Multiplexer F) (p : Peer F) (found : m.peers[i]? = some p) :
      ∃ q, (js.foldl (fun m j => (m.onHost j (.close now errorNoError [])).getD m) m).peers[i]? =
          some q ∧ q.inHand = p.inHand ∧ q.host.conn.path = p.host.conn.path := by
    induction js generalizing m p with
    | nil => exact ⟨p, found, rfl, rfl⟩
    | cons j rest ih =>
      rw [List.foldl_cons]
      cases taken : m.onHost j (.close now errorNoError []) with
      | none => exact ih m p found
      | some m' =>
        obtain ⟨p', found', inHand', closes⟩ := peer_onHost taken found
        obtain ⟨q, there, inHand, path⟩ := ih m' p' found'
        refine ⟨q, there, inHand.trans inHand', path.trans ?_⟩
        rcases closes with ⟨-, host⟩ | ⟨-, stepped⟩
        · rw [host]
        · rw [← Option.some.inj stepped]
          exact (Connection.serves_closeInternal now errorNoError [] true).path
  obtain ⟨q, there, inHand, path⟩ :=
    all (m.connections.entries.map Sigma.snd) { m with connections := ∅ } p found
  exact ⟨q, there, .close now path inHand⟩

theorem step_turn (taken : m.step event = some m') (found : m.peers[i]? = some p) :
    ∃ q, m'.peers[i]? = some q ∧ Turn m i p event q := by
  have appended (q : Peer F) : (m.peers ++ [q])[i]? = some p :=
    (List.getElem?_append_left (List.getElem?_eq_some_iff.mp found).1).trans found
  cases event with
  | datagram now data source challenge =>
    obtain rfl := Option.some.inj taken
    obtain ⟨q, there, inHand, host⟩ := peer_handleDatagram now data source challenge found
    refine ⟨q, there, ?_⟩
    split at host
    · rename_i routed
      exact .observe now data source challenge routed (by rw [host]; rfl) inHand
    · exact .rest host inHand
  | accept =>
    obtain ⟨out, handed, rfl⟩ := Option.map_eq_some_iff.mp taken
    obtain ⟨i, rest, -, rfl⟩ := accept_eq_some handed
    exact ⟨p, found, .rest rfl rfl⟩
  | dial now localCID remoteCID addr =>
    rw [step] at taken
    split at taken
    · obtain rfl := Option.some.inj taken
      exact ⟨p, appended _, .rest rfl rfl⟩
    · cases taken
  | take j => exact turn_take taken found
  | proceed j now =>
    by_cases same : j = i
    · subst same
      obtain ⟨q, step, there, inHand, stepped⟩ := peer_proceed taken found
      exact ⟨q, there, .proceed now step inHand stepped⟩
    · obtain ⟨p', step, rest, -, -, stepped⟩ := proceed_cases taken
      obtain ⟨q, there, inHand, ⟨-, host⟩ | ⟨here, -⟩⟩ :=
        peer_onHost stepped ((List.getElem?_set_ne same).trans found)
      · exact ⟨q, there, .rest host inHand⟩
      · exact absurd here same
  | call j input =>
    rw [step] at taken
    split at taken
    · rename_i isCall
      obtain ⟨q, there, inHand, ⟨-, host⟩ | ⟨same, stepped⟩⟩ := peer_onHost taken found
      · exact ⟨q, there, .rest host inHand⟩
      · subst same
        exact ⟨q, there, .call input isCall stepped inHand⟩
    · cases taken
  | idleRound =>
    obtain rfl := Option.some.inj taken
    exact ⟨p, by rwa [peers_idleRound], .rest rfl rfl⟩
  | close now =>
    obtain rfl := Option.some.inj taken
    exact turn_close now found

/-- What the connection's goroutine has in hand is the rest of a packet. -/
def Handles (p : Peer F) : Prop := ∃ pkt : Packet, p.inHand <:+ pkt.handling

/-- A datagram for the connection comes from the address or from where the
connection is. -/
def FromPath (i : Nat) (addr : Addr) (m : Multiplexer F) : Event → Prop
  | .datagram _ data source _ => m.routed data = some i → ∀ p ∈ m.peers[i]?,
    source = addr ∨ source = p.host.conn.remoteAddr
  | _ => True

/-- A datagram from the address comes within `pathChallengeRetry` of the
challenge or finds the connection there, and no call of `InitiatePathMigration`
takes the connection away from the address. -/
def Prompt (i : Nat) (addr : Addr) (m : Multiplexer F) : Event → Prop
  | .datagram now data source _ => m.routed data = some i → ∀ p ∈ m.peers[i]?,
    source = addr → p.host.conn.remoteAddr = addr ∨
      now - p.host.conn.pendingSentAt < pathChallengeRetry
  | .call j (.answer k) => j = i → ∀ p ∈ m.peers[i]?, p.host.KeepsChallenge addr (.answer k)
  | _ => True

omit [Float64 F] in
theorem keepsChallenge_handling {pkt : Packet} {step : Time → Host.Input}
    (member : step ∈ pkt.handling)
    (h : Host F) (now : Time) : h.KeepsChallenge addr (step now) := by
  rcases List.mem_append.mp member with early | late
  · rcases List.mem_cons.mp early with rfl | frame
    · trivial
    · obtain ⟨f, -, rfl⟩ := List.mem_map.mp frame
      trivial
  · split at late
    · cases late
    · obtain rfl := List.mem_singleton.mp late
      trivial

theorem Turn.awaits (turn : Turn m i p event q) (found : m.peers[i]? = some p)
    (path : FromPath i addr m event) (prompt : Prompt i addr m event) (handles : Handles p)
    (awaits : p.host.Awaits addr data) : Handles q ∧ q.host.Awaits addr data := by
  cases turn with
  | rest host inHand =>
    unfold Handles
    rw [host, inHand]
    exact ⟨handles, awaits⟩
  | observe now bytes source challenge routed observed inHand =>
    refine ⟨by unfold Handles; rwa [inHand], awaits.step ?_ observed⟩
    rcases path routed p found with rfl | here
    · rcases prompt routed p found rfl with moved | soon
      · exact .inl (congrArg some moved.symm)
      · exact .inr ⟨rfl, soon⟩
    · exact .inl (congrArg some here)
  | take pkt host inHand =>
    rw [host]
    exact ⟨⟨pkt, by rw [inHand]⟩, awaits⟩
  | proceed now step inHand stepped =>
    obtain ⟨pkt, suffix⟩ := handles
    rw [inHand] at suffix
    have member : step ∈ pkt.handling := suffix.subset List.mem_cons_self
    exact ⟨⟨pkt, (List.suffix_cons _ _).trans suffix⟩,
      awaits.step (keepsChallenge_handling member p.host now) stepped⟩
  | call input isCall stepped inHand =>
    refine ⟨by unfold Handles; rwa [inHand], awaits.step ?_ stepped⟩
    cases input with
    | answer k => exact prompt rfl p found
    | observeAddr => cases isCall
    | _ => trivial
  | close now path inHand =>
    exact ⟨by unfold Handles; rwa [inHand], awaits.congr path q.host.challenges q.host.callers⟩

/-- A datagram from another address makes the connection challenge the address.
In every run from there in which each datagram for the connection comes from the
address or from where the connection is, and those from the address come within
`pathChallengeRetry` of the challenge or find the connection there already, an
answer that is handled leaves the connection at the address. -/
theorem answer_completes_migration {m₀ m₁ m₂ m₃ : Multiplexer F} {p₀ p₂ : Peer F}
    {events : List Event} {start now : Time} {bytes : List UInt8} {pkt : Packet}
    {later : List (Time → Host.Input)}
    (found : m₀.peers[i]? = some p₀) (handles : Handles p₀) (routed : m₀.routed bytes = some i)
    (challenged : (p₀.host.conn.observeAddr start (some addr) (some data)).2 = some (data, addr))
    (first : m₀.step (.datagram start bytes addr (some data)) = some m₁)
    (path : Runs.Along step (FromPath i addr) m₁ events)
    (prompt : Runs.Along step (Prompt i addr) m₁ events)
    (reached : Runs.run step m₁ events = some m₂) (found₂ : m₂.peers[i]? = some p₂)
    (inHand : p₂.inHand = (fun now => .frame now pkt (.pathResponse data)) :: later)
    (handled : m₂.step (.proceed i now) = some m₃) :
    ∃ p₃, m₃.peers[i]? = some p₃ ∧ p₃.host.conn.remoteAddr = addr := by
  obtain rfl := Option.some.inj first
  obtain ⟨p₁, found₁, inHand₁, host₁⟩ := peer_handleDatagram start bytes addr (some data) found
  rw [if_pos routed] at host₁
  have awaits₁ : p₁.host.Awaits addr data := host₁ ▸ .inl (Host.pending_of_challenged challenged)
  have handles₁ : Handles p₁ := by
    unfold Handles
    rwa [inHand₁]
  have kept : ∃ p, m₂.peers[i]? = some p ∧ Handles p ∧ p.host.Awaits addr data := by
    refine Runs.invariant
      (fun m : Multiplexer F => ∃ p, m.peers[i]? = some p ∧ Handles p ∧ p.host.Awaits addr data)
      ?_ ⟨p₁, found₁, handles₁, awaits₁⟩ (path.and prompt) reached
    rintro m event m' ⟨p, found, handles, awaits⟩ ⟨path, prompt⟩ taken
    obtain ⟨q, there, turn⟩ := step_turn taken found
    exact ⟨q, there, turn.awaits found path prompt handles awaits⟩
  obtain ⟨p, found, -, awaits⟩ := kept
  obtain rfl := Option.some.inj (found.symm.trans found₂)
  obtain ⟨p₃, step, there, next, stepped⟩ := peer_proceed handled found₂
  obtain ⟨rfl, -⟩ := List.cons.inj (inHand.symm.trans next)
  exact ⟨p₃, there, awaits.answered stepped⟩

def packetWith (frames : List Frame) : Packet := { Register.syn 0 0 with frames := frames }

/-- A multiplexer with one connection, to "peer". -/
def serving : Multiplexer ℚ :=
  let cid := (packetWith []).destinationCID
  { connections := (∅ : AList (fun _ : ConnectionID => Nat)).insert cid 0
    peers := [Peer.newPeer cid (packetWith []).sourceCID "peer" true 0] }

def decoded (frames : List Frame) : Packet :=
  { packetWith frames with wireLen := (marshalPacket (packetWith frames)).length }

theorem step_packetWith {frames : List Frame} (encodable : (packetWith frames).Encodable)
    (m : Multiplexer F) (now : Time) (source : Addr) (challenge : Option (Vector UInt8 8)) :
    m.step (.datagram now (marshalPacket (packetWith frames)) source challenge) =
      some (m.route now (decoded frames) source challenge) := by
  rw [step, handleDatagram, unmarshalPacket_encoded _ encodable]
  rfl

theorem encodable_ping : (packetWith [.ping]).Encodable :=
  ⟨by simp [packetWith, Frame.Encodable], by simp [packetWith, Register.syn]⟩

theorem encodable_answer : (packetWith [.pathResponse Host.nonce]).Encodable :=
  ⟨by simp [packetWith, Frame.Encodable], by simp [packetWith, Register.syn]⟩

/-- A packet comes from "elsewhere", which is challenged. -/
def rebinding : Event :=
  .datagram 0 (marshalPacket (packetWith [.ping])) "elsewhere" (some Host.nonce)

def challenging : Multiplexer ℚ := serving.route 0 (decoded [.ping]) "elsewhere" (some Host.nonce)

/-- The answer follows, and the connection handles both packets up to it. -/
def answering (now : Time) : List Event :=
  .datagram now (marshalPacket (packetWith [.pathResponse Host.nonce])) "elsewhere"
      (some (Vector.replicate 8 0)) ::
    [.take 0, .proceed 0 now, .proceed 0 now, .take 0, .proceed 0 now]

theorem fromPath_answering (now : Time) :
    Runs.Along step (FromPath 0 "elsewhere") challenging (answering now) := by
  refine ⟨fun _ _ _ => .inl rfl, fun m _ => Runs.along_of_forall ?_ m⟩
  simp [FromPath]

theorem prompt_answering {now : Time} (soon : now < pathChallengeRetry) :
    Runs.Along step (Prompt 0 "elsewhere") challenging (answering now) := by
  refine ⟨fun _ p found _ => .inr ?_, fun m _ => Runs.along_of_forall ?_ m⟩
  · obtain rfl := Option.some.inj found
    exact (Int.sub_zero now).symm ▸ soon
  · simp [Prompt]

/-- The handling of the answer has come to its frame. -/
def AtAnswer (m : Multiplexer F) : Prop :=
  ∃ p, m.peers[0]? = some p ∧ p.inHand = [fun now => .frame now (decoded [.pathResponse Host.nonce])
    (.pathResponse Host.nonce)]

theorem rebinding_challenged :
    serving.step rebinding = some challenging ∧
      serving.routed (marshalPacket (packetWith [.ping])) = some 0 ∧
      ∃ p, serving.peers[0]? = some p ∧ p.inHand = [] ∧
        (p.host.conn.observeAddr 0 (some "elsewhere") (some Host.nonce)).2 =
          some (Host.nonce, "elsewhere") := by
  refine ⟨step_packetWith encodable_ping serving 0 _ _, ?_, _, rfl, rfl, by decide +kernel⟩
  rw [routed, unmarshalPacket_encoded _ encodable_ping]
  rfl

/-- The answer comes at once, and the connection moves. -/
theorem answer_completes_migration_soon :
    ∃ m₂ m₃, Runs.run step challenging (answering 1) = some m₂ ∧ m₂.AtAnswer ∧
      m₂.step (.proceed 0 1) = some m₃ ∧
      ∃ p₃, m₃.peers[0]? = some p₃ ∧ p₃.host.conn.remoteAddr = "elsewhere" := by
  obtain ⟨first, routed, p₀, found, inHand, challenged⟩ := rebinding_challenged
  have reached : ∃ m₂ m₃ p₂, Runs.run step challenging (answering 1) = some m₂ ∧
      m₂.peers[0]? = some p₂ ∧ p₂.inHand = [fun now => .frame now
        (decoded [.pathResponse Host.nonce]) (.pathResponse Host.nonce)] ∧
      m₂.step (.proceed 0 1) = some m₃ := by
    rw [answering, Runs.run_cons, step_packetWith encodable_answer]
    exact ⟨_, _, _, rfl, rfl, rfl, rfl⟩
  obtain ⟨m₂, m₃, p₂, reached, found₂, inHand₂, handled⟩ := reached
  have handles : Handles p₀ := ⟨decoded [], by rw [inHand]; exact List.nil_suffix⟩
  exact ⟨m₂, m₃, reached, ⟨p₂, found₂, inHand₂⟩, handled,
    answer_completes_migration found handles routed challenged first (fromPath_answering 1)
      (prompt_answering (by decide)) reached found₂ inHand₂ handled⟩

/-- The answer comes a second later, from the address that was challenged and
with the data of the challenge, and the connection does not move. -/
theorem late_answer_stays :
    serving.step rebinding = some challenging ∧
      (∃ p, challenging.peers[0]? = some p ∧ p.host.challenges = [(Host.nonce, "elsewhere")]) ∧
      Runs.Along step (FromPath 0 "elsewhere") challenging (answering pathChallengeRetry) ∧
      ∃ m₂ m₃, Runs.run step challenging (answering pathChallengeRetry) = some m₂ ∧ m₂.AtAnswer ∧
        m₂.step (.proceed 0 pathChallengeRetry) = some m₃ ∧
        ∃ p₃, m₃.peers[0]? = some p₃ ∧ p₃.host.conn.remoteAddr = "peer" := by
  refine ⟨rebinding_challenged.1, ⟨_, rfl, by decide +kernel⟩, fromPath_answering _, ?_⟩
  rw [answering, Runs.run_cons, step_packetWith encodable_answer]
  exact ⟨_, _, rfl, ⟨_, rfl, rfl⟩, rfl, _, rfl, rfl⟩

end Multiplexer

end Udx

import Udx.Host

set_option autoImplicit false

/- Moving to another address, by `observeAddr` and `completeMigration` or by
`InitiatePathMigration`. -/

namespace Udx

variable {F : Type} [Float64 F]

namespace Host

variable {h h' : Host F}

theorem wire_subset {input : Input} (taken : h.step input = some h') :
    h.conn.wire ⊆ h'.conn.wire := by
  have delivered {c : Connection F} (delivers : h.conn.Delivers c) : h.conn.wire ⊆ c.wire := by
    obtain ⟨sent, -, wire, -⟩ := delivers.sent
    rw [wire]
    exact List.subset_append_right _ _
  cases step_effect taken with
  | serve callers changes => exact delivered changes.serves.toDelivers
  | enter now pkt f _ _ _ changes => exact delivered changes.serves_entered.toDelivers
  | close now code reason announce =>
    exact delivered (Connection.serves_closeInternal now code reason announce).toDelivers
  | ack now pkt f => exact delivered (Connection.keeps_handleAckFrame now f).delivers
  | challenge i data addr =>
    rw [Connection.wire_sendControlTo]
    exact List.subset_cons_self _ _
  | openStream | raise | arrive | move | respond | pend | reject | finish =>
    exact List.Subset.refl _

theorem wire_subset_run {inputs : List Input} (reached : Runs.run step h inputs = some h') :
    h.conn.wire ⊆ h'.conn.wire :=
  Runs.invariant_of_forall (fun s : Host F => h.conn.wire ⊆ s.conn.wire)
    (fun _ _ _ sub taken => List.Subset.trans sub (wire_subset taken)) (List.Subset.refl _) reached

/-- A PATH_CHALLENGE with the data went out to the address. -/
def Challenged (h : Host F) (data : Vector UInt8 8) (addr : Addr) : Prop :=
  ∃ d ∈ h.conn.wire, d.addr = addr ∧ .pathChallenge data ∈ d.packet.frames

/-- The inputs bring a PATH_RESPONSE for a challenge that had gone out to the
address by then. -/
def Proven (start : Host F) (inputs : List Input) (addr : Addr) : Prop :=
  ∃ data before now pkt after mid,
    inputs = before ++ .frame now pkt (.pathResponse data) :: after ∧
      Runs.run step start before = some mid ∧ mid.Challenged data addr

theorem Proven.sent {start : Host F} {inputs : List Input} {addr : Addr}
    (proven : Proven start inputs addr) (reached : Runs.run step start inputs = some h) :
    ∃ d ∈ h.conn.wire, d.addr = addr := by
  obtain ⟨data, before, now, pkt, after, mid, rfl, first, d, member, there, -⟩ := proven
  rw [Runs.run_append, first] at reached
  exact ⟨d, wire_subset_run reached member, there⟩

/-- A response to the pending challenge comes after the goroutine has sent it,
and a call of `InitiatePathMigration` ends at the address the connection has. -/
def Heard (h : Host F) : Input → Prop
  | .frame _ _ (.pathResponse data) =>
    ∀ addr ∈ h.conn.pendingAddr, data = h.conn.pendingChallenge → (data, addr) ∉ h.challenges
  | .answer i => ∀ caller ∈ h.callers[i]?, h.conn.pathChallengeResp = some caller.1 →
    caller.2 = h.conn.remoteAddr
  | _ => True

instance (h : Host F) : (input : Input) → Decidable (h.Heard input)
  | .frame _ _ f =>
    match f with
    | .pathResponse data =>
      inferInstanceAs (Decidable (∀ addr ∈ h.conn.pendingAddr,
        data = h.conn.pendingChallenge → (data, addr) ∉ h.challenges))
    | .stream _ | .ack _ | .windowUpdate _ | .maxData _ | .resetStream _ | .connectionClose _
    | .pathChallenge _ | .maxStreams _ | .stopSending .. | .dataBlocked _ | .streamDataBlocked ..
    | .padding | .ping | .mtuProbe _ | .newConnectionID _ | .retireConnectionID _ => .isTrue trivial
  | .answer i =>
    inferInstanceAs (Decidable (∀ caller ∈ h.callers[i]?,
      h.conn.pathChallengeResp = some caller.1 → caller.2 = h.conn.remoteAddr))
  | .arrive .. | .note .. | .observeAddr .. | .sendChallenge _ | .ackTimer .. | .lossTimer _
  | .pto _ | .flushLost _ | .idleCheck _ | .openStream | .acceptStream | .write .. | .writeBlocked ..
  | .read .. | .closeStream .. | .resetStream .. | .ping _ | .close .. | .migrate .. | .giveUp _ =>
    .isTrue trivial

/-- The pending challenge is with its goroutine or has gone out. -/
def Pending (h : Host F) : Prop :=
  ∀ addr ∈ h.conn.pendingAddr,
    (h.conn.pendingChallenge, addr) ∈ h.challenges ∨ h.Challenged h.conn.pendingChallenge addr

theorem mem_eraseIdx {α : Type} {xs : List α} {x y : α} {i : Nat} (member : x ∈ xs)
    (here : xs[i]? = some y) : x = y ∨ x ∈ xs.eraseIdx i := by
  obtain ⟨j, found⟩ := List.mem_iff_getElem?.mp member
  by_cases same : j = i
  · subst same
    exact .inl (Option.some.inj (found.symm.trans here))
  · exact .inr (List.mem_eraseIdx_iff_getElem?.mpr ⟨j, same, found⟩)

omit [Float64 F] in
theorem Pending.deliver {c : Connection F} (pending : h.Pending) (delivers : h.conn.Delivers c)
    (callers : List (Vector UInt8 8 × Addr)) :
    ({ h with conn := c, callers := callers } : Host F).Pending := by
  obtain ⟨sent, -, wire, -⟩ := delivers.sent
  have addr : c.pendingAddr = h.conn.pendingAddr :=
    congrArg Connection.Path.pendingAddr delivers.path
  have data : c.pendingChallenge = h.conn.pendingChallenge :=
    congrArg Connection.Path.pendingChallenge delivers.path
  intro a waits
  simp only [addr, data] at waits ⊢
  rcases pending a waits with started | ⟨d, member, there, carries⟩
  · exact .inl started
  · exact .inr ⟨d, wire ▸ List.mem_append_right _ member, there, carries⟩

omit [Float64 F] in
theorem Pending.challenge (pending : h.Pending) {i : Nat} {data : Vector UInt8 8} {addr : Addr}
    (present : h.challenges[i]? = some (data, addr)) :
    ({ h with
      conn := h.conn.sendControlTo [.pathChallenge data] addr
      challenges := h.challenges.eraseIdx i } : Host F).Pending := by
  let d : Datagram := ⟨h.conn.packet 0 0 0 [.pathChallenge data], addr, false⟩
  have wire : (h.conn.sendControlTo [.pathChallenge data] addr).wire = d :: h.conn.wire :=
    h.conn.wire_sendControlTo _ addr
  have same : (h.conn.sendControlTo [.pathChallenge data] addr).path = h.conn.path :=
    h.conn.path_sendControlTo _ addr
  generalize h.conn.sendControlTo [.pathChallenge data] addr = c at wire same ⊢
  intro a waits
  have waits : h.conn.pendingAddr = some a := (congrArg Connection.Path.pendingAddr same).symm.trans waits
  have challenge : c.pendingChallenge = h.conn.pendingChallenge :=
    congrArg Connection.Path.pendingChallenge same
  simp only [Challenged, challenge, wire]
  rcases pending a waits with started | ⟨sent, member, there, carries⟩
  · rcases mem_eraseIdx started present with here | waiting
    · obtain ⟨rfl, rfl⟩ := Prod.mk.inj here
      exact .inr ⟨d, List.mem_cons_self, rfl, List.mem_singleton_self _⟩
    · exact .inl waiting
  · exact .inr ⟨sent, List.mem_cons_of_mem _ member, there, carries⟩

theorem Pending.step {input : Input} (pending : h.Pending) (taken : h.step input = some h') :
    h'.Pending := by
  cases step_effect taken with
  | serve callers changes => exact pending.deliver changes.serves.toDelivers callers
  | enter now pkt f _ _ _ changes =>
    exact pending.deliver changes.serves_entered.toDelivers h.callers
  | close now code reason announce =>
    exact pending.deliver (Connection.serves_closeInternal now code reason announce).toDelivers
      h.callers
  | ack now pkt f => exact pending.deliver (Connection.keeps_handleAckFrame now f).delivers h.callers
  | openStream | raise | arrive | respond | reject | finish => exact pending
  | move => exact nofun
  | pend now addr challenge =>
    intro a waits
    obtain rfl := Option.some.inj waits
    exact .inl (List.mem_append_right _ (List.mem_singleton_self _))
  | challenge i data addr present => exact pending.challenge present

theorem remoteAddr_proven {localCID remoteCID : ConnectionID} {addr : Addr}
    {isInitiator validated : Bool} {start : Time} {inputs : List Input} {input : Input}
    (heard : Runs.Along step Heard
      (newHost localCID remoteCID addr isInitiator validated start : Host F) (inputs ++ [input]))
    (reached : Runs.run step (newHost localCID remoteCID addr isInitiator validated start) inputs =
      some h)
    (taken : h.step input = some h') (moved : h'.conn.remoteAddr ≠ h.conn.remoteAddr) :
    Proven (newHost localCID remoteCID addr isInitiator validated start : Host F)
      (inputs ++ [input]) h'.conn.remoteAddr := by
  have pending : h.Pending :=
    Runs.invariant_of_forall Pending (fun _ _ _ => Pending.step)
      (fun _ waits => by simp [newHost, newConnection] at waits) reached
  have permitted : h.Heard input := (heard.append reached).2.1
  cases step_effect taken with
  | serve callers changes => exact absurd (congrArg Connection.Path.remoteAddr changes.serves.path) moved
  | enter now pkt f _ _ _ changes =>
    exact absurd (congrArg Connection.Path.remoteAddr changes.serves_entered.path) moved
  | close now code reason announce =>
    have serves := Connection.serves_closeInternal (c := h.conn) now code reason announce
    exact absurd (congrArg Connection.Path.remoteAddr serves.path) moved
  | ack now pkt f =>
    have delivers := (Connection.keeps_handleAckFrame (c := h.conn) now f).delivers
    exact absurd (congrArg Connection.Path.remoteAddr delivers.path) moved
  | openStream | raise | arrive | respond | reject | pend => exact absurd rfl moved
  | challenge i data addr =>
    have same := congrArg Connection.Path.remoteAddr (h.conn.path_sendControlTo [.pathChallenge data] addr)
    generalize h.conn.sendControlTo [.pathChallenge data] addr = c at same moved
    exact absurd same moved
  | move now pkt new waits =>
    have sent := (pending new waits).resolve_left (permitted new waits rfl)
    exact ⟨_, inputs, now, pkt, [], h, rfl, reached, sent⟩
  | finish i data new waits answered => exact absurd (permitted (data, new) waits answered) moved

/-- A host on a fresh connection to "peer", its clock at zero. -/
def freshHost : Host ℚ := newHost ⟨[], Nat.zero_le _⟩ ⟨[], Nat.zero_le _⟩ "peer" true true 0

def nonce : Vector UInt8 8 := Vector.replicate 8 7

def answerPacket : Packet := freshHost.conn.packet 0 0 0 [.pathResponse nonce]

/-- The peer answers, from where it is, the challenge of a move elsewhere. -/
def movedUnchallenged : List Input := .migrate 0 "elsewhere" nonce :: packet 1 answerPacket

theorem movedUnchallenged_unproven :
    ∃ h h' : Host ℚ, Runs.run step freshHost movedUnchallenged = some h ∧
      h.step (.answer 0) = some h' ∧ h'.conn.remoteAddr ≠ h.conn.remoteAddr ∧
      ¬ Proven freshHost (movedUnchallenged ++ [.answer 0]) h'.conn.remoteAddr := by
  have moves : (Runs.run step freshHost movedUnchallenged).any (fun h =>
      (h.step (.answer 0)).any fun h' => decide (h'.conn.remoteAddr ≠ h.conn.remoteAddr ∧
        ∀ d ∈ h'.conn.wire, d.addr ≠ h'.conn.remoteAddr)) = true := by decide +kernel
  obtain ⟨h, h', reached, taken, test⟩ := Runs.reaches_step_of_any moves
  obtain ⟨moved, never⟩ := of_decide_eq_true test
  refine ⟨h, h', reached, taken, moved, fun proven => ?_⟩
  obtain ⟨d, member, there⟩ := proven.sent (Runs.run_append_singleton reached taken)
  exact never d member there

/-- The peer's new address is challenged, and answers. -/
def rebound : List Input :=
  [.observeAddr 0 (some "elsewhere") (some nonce), .sendChallenge 0]

theorem remoteAddr_proven_rebound :
    ∃ h h' : Host ℚ, Runs.run step freshHost (rebound ++ [.arrive 1 answerPacket]) = some h ∧
      h.step (.frame 1 answerPacket (.pathResponse nonce)) = some h' ∧
      h'.conn.remoteAddr = "elsewhere" ∧
      Proven freshHost (rebound ++ [.arrive 1 answerPacket] ++
        [.frame 1 answerPacket (.pathResponse nonce)]) h'.conn.remoteAddr := by
  have moves : (Runs.run step freshHost (rebound ++ [.arrive 1 answerPacket])).any (fun h =>
      (h.step (.frame 1 answerPacket (.pathResponse nonce))).any fun h' =>
        decide (h'.conn.remoteAddr ≠ h.conn.remoteAddr ∧ h'.conn.remoteAddr = "elsewhere")) =
      true := by decide +kernel
  have heard : Runs.Along step Heard freshHost (rebound ++ [.arrive 1 answerPacket] ++
      [.frame 1 answerPacket (.pathResponse nonce)]) := by decide +kernel
  obtain ⟨h, h', reached, taken, test⟩ := Runs.reaches_step_of_any moves
  obtain ⟨moved, there⟩ := of_decide_eq_true test
  exact ⟨h, h', reached, taken, there, remoteAddr_proven heard reached taken moved⟩

end Host

end Udx

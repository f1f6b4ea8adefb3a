import Udx.PathMigration

set_option autoImplicit false

/- The datagram size and the address it was validated for. `MTUDiscovery`
keeps the one and `Connection` the other; nothing starts the search again when
the address changes. -/

namespace Udx

variable {F : Type} [Float64 F]

namespace Connection

variable {c c' : Connection F}

/-- The ACK names a tracked path-MTU probe of this size, which went out to the
address. -/
def Acknowledges (c : Connection F) (f : AckFrame) (size : Nat) (addr : Addr) : Prop :=
  ∃ n ∈ f.sequences, ∃ p, c.pm.sentPackets.lookup n = some p ∧ (c.pm.heap p).probe = true ∧
    (c.pm.heap p).size = size ∧ ∃ d ∈ c.wire, d.addr = addr ∧ Shows (c.pm.heap p) d

/-- Every tracked probe went out to the address the connection has. -/
def ProbesShown (c : Connection F) : Prop :=
  ∀ e ∈ c.pm.sentPackets.entries, (c.pm.heap e.2).probe = true →
    ∃ d ∈ c.wire, d.addr = c.remoteAddr ∧ Shows (c.pm.heap e.2) d

def Probeless (c : Connection F) : Prop :=
  ∀ e ∈ c.pm.sentPackets.entries, (c.pm.heap e.2).probe = false

omit [Float64 F] in
theorem ProbesShown.deliver (shown : c.ProbesShown) (delivers : c.Delivers c') :
    c'.ProbesShown := by
  obtain ⟨sent, handed, wire, -, probes⟩ := delivers.sent
  have addr : c'.remoteAddr = c.remoteAddr := congrArg Path.remoteAddr delivers.path
  intro e member probe
  rw [addr, wire]
  rcases probes e member probe with ⟨old, cargo, sequence⟩ | ⟨d, new, shows⟩
  · obtain ⟨d, earlier, there, shows⟩ := shown e old (cargo ▸ probe)
    refine ⟨d, List.mem_append_right _ earlier, there, ?_⟩
    rw [Shows, cargo, sequence]
    exact shows
  · exact ⟨d, List.mem_append_left _ new, handed.addr_eq d new, shows⟩

omit [Float64 F] in
theorem ProbesShown.congr (shown : c.ProbesShown) (pm : c'.pm = c.pm)
    (wire : c.wire ⊆ c'.wire) (addr : c'.remoteAddr = c.remoteAddr) : c'.ProbesShown := by
  intro e member probe
  rw [pm] at member probe ⊢
  obtain ⟨d, earlier, there, shows⟩ := shown e member probe
  exact ⟨d, wire earlier, there.trans addr.symm, shows⟩

end Connection

namespace Host

variable {h h' : Host F}

/-- The datagram size is that of a probe that went out to the address and was
acknowledged, and the connection has had that address since. -/
def Validated (start : Host F) (inputs : List Input) (h : Host F) : Prop :=
  ∃ before now pkt f after mid, inputs = before ++ .frame now pkt (.ack f) :: after ∧
    Runs.run step start before = some mid ∧
    mid.conn.Acknowledges f h.conn.mtu.current h.conn.remoteAddr ∧
    ∀ later s, later <+: .frame now pkt (.ack f) :: after → Runs.run step mid later = some s →
      s.conn.remoteAddr = h.conn.remoteAddr

/-- The address changes only while the size is the base and no probe is
outstanding. -/
def MovesUnprobed (h : Host F) (input : Input) : Prop :=
  ∀ h' ∈ h.step input, h'.conn.remoteAddr = h.conn.remoteAddr ∨
    h.conn.mtu.current ≤ safeDatagramSize ∧ h.conn.Probeless

theorem Validated.extend {start : Host F} {inputs : List Input} {input : Input}
    (validated : Validated start inputs h) (reached : Runs.run step start inputs = some h)
    (taken : h.step input = some h') (size : h'.conn.mtu.current = h.conn.mtu.current)
    (addr : h'.conn.remoteAddr = h.conn.remoteAddr) : Validated start (inputs ++ [input]) h' := by
  obtain ⟨before, now, pkt, f, after, mid, rfl, first, acked, stays⟩ := validated
  rw [Runs.run_append, first] at reached
  refine ⟨before, now, pkt, f, after ++ [input], mid, by simp, first, by rwa [size, addr],
    fun later s sub ends => ?_⟩
  rw [← List.cons_append, List.prefix_concat_iff] at sub
  rcases sub with rfl | sub
  · rw [Runs.run_append_singleton reached taken, Option.some.injEq] at ends
    rw [ends]
  · rw [addr]
    exact stays later s sub ends

theorem Validated.acknowledge {start : Host F} {inputs : List Input} {now : Time} {pkt : Packet}
    {f : AckFrame} (reached : Runs.run step start inputs = some h)
    (taken : h.step (.frame now pkt (.ack f)) = some h')
    (acked : h.conn.Acknowledges f h'.conn.mtu.current h'.conn.remoteAddr)
    (addr : h'.conn.remoteAddr = h.conn.remoteAddr) :
    Validated start (inputs ++ [.frame now pkt (.ack f)]) h' := by
  refine ⟨inputs, now, pkt, f, [], h, rfl, reached, acked, fun later s sub ends => ?_⟩
  rw [← List.nil_append [_], List.prefix_concat_iff, List.prefix_nil] at sub
  rcases sub with rfl | rfl
  · rw [Runs.run_append_singleton (Runs.run_nil h) taken, Option.some.injEq] at ends
    rw [ends]
  · rw [Runs.run_nil, Option.some.injEq] at ends
    rw [← ends, addr]

/-- What holds of a host after the inputs. -/
structure Sized (start : Host F) (inputs : List Input) (h : Host F) : Prop where
  shown : h.conn.ProbesShown
  validated : safeDatagramSize < h.conn.mtu.current → Validated start inputs h

/-- The path stays, and the size with it unless it falls back. -/
theorem Sized.stay {start : Host F} {inputs : List Input} {input : Input}
    (sized : Sized start inputs h) (reached : Runs.run step start inputs = some h)
    (taken : h.step input = some h') (shown : h'.conn.ProbesShown)
    (falls : h.conn.mtu.Falls h'.conn.mtu) (addr : h'.conn.remoteAddr = h.conn.remoteAddr) :
    Sized start (inputs ++ [input]) h' := by
  refine ⟨shown, fun large => ?_⟩
  have size : h'.conn.mtu.current = h.conn.mtu.current :=
    falls.resolve_right (Nat.not_le_of_lt large)
  exact (sized.validated (size ▸ large)).extend reached taken size addr

theorem Sized.serve {start : Host F} {inputs : List Input} {input : Input}
    (sized : Sized start inputs h) (reached : Runs.run step start inputs = some h)
    (taken : h.step input = some h') (serves : h.conn.Serves h'.conn) :
    Sized start (inputs ++ [input]) h' :=
  sized.stay reached taken (sized.shown.deliver serves.toDelivers) serves.size
    (congrArg Connection.Path.remoteAddr serves.path)

theorem Sized.move {start : Host F} {inputs : List Input} {input : Input}
    (sized : Sized start inputs h) (reached : Runs.run step start inputs = some h)
    (taken : h.step input = some h') (unprobed : h.MovesUnprobed input)
    (pm : h'.conn.pm = h.conn.pm)
    (mtu : h'.conn.mtu = h.conn.mtu) (wire : h'.conn.wire = h.conn.wire) :
    Sized start (inputs ++ [input]) h' := by
  rcases unprobed h' taken with same | ⟨base, probeless⟩
  · exact sized.stay reached taken
      (sized.shown.congr pm (wire ▸ List.Subset.refl _) same) (mtu ▸ .refl) same
  · refine ⟨fun e member probe => ?_, fun large => ?_⟩
    · rw [pm] at member probe
      exact absurd ((probeless e member).symm.trans probe) (by decide)
    · rw [mtu] at large
      exact absurd base (Nat.not_le_of_lt large)

theorem Sized.challenge {start : Host F} {inputs : List Input} {input : Input}
    (sized : Sized start inputs h) (reached : Runs.run step start inputs = some h)
    {frames : List Frame} {addr : Addr} {challenges : List (Vector UInt8 8 × Addr)}
    (taken : h.step input =
      some { h with conn := h.conn.sendControlTo frames addr, challenges := challenges }) :
    Sized start (inputs ++ [input])
      { h with conn := h.conn.sendControlTo frames addr, challenges := challenges } :=
  sized.stay reached taken (sized.shown.congr rfl (List.subset_cons_self _ _) rfl) .refl rfl

theorem Sized.step {start : Host F} {inputs : List Input} {input : Input}
    (reached : Runs.run step start inputs = some h) (sized : Sized start inputs h)
    (unprobed : h.MovesUnprobed input) (taken : h.step input = some h') :
    Sized start (inputs ++ [input]) h' := by
  have effect := step_effect taken
  cases effect with
  | serve callers changes => exact sized.serve reached taken changes.serves
  | enter now pkt f _ _ _ changes => exact sized.serve reached taken changes.serves_entered
  | close now code reason announce =>
    exact sized.serve reached taken (Connection.serves_closeInternal now code reason announce)
  | ack now pkt f =>
    have delivers := (Connection.keeps_handleAckFrame (c := h.conn) now f).delivers
    have shown := sized.shown.deliver delivers
    have addr := congrArg Connection.Path.remoteAddr delivers.path
    rcases Connection.current_handleAckFrame (c := h.conn) now f with
      falls | ⟨n, named, p, found, probe, size⟩
    · exact sized.stay reached taken shown falls addr
    · obtain ⟨d, sent, there, shows⟩ :=
        sized.shown ⟨n, p⟩ (Tables.mem_entries_iff.mpr found) probe
      refine ⟨shown, fun _ => .acknowledge reached taken ?_ addr⟩
      exact ⟨n, named, p, found, probe, size, d, sent, there.trans addr.symm, shows⟩
  | openStream opened room | raise now pkt count more | arrive now pkt | respond now pkt data
  | pend now addr challenge | reject i =>
    exact sized.stay reached taken (sized.shown.congr rfl (List.Subset.refl _) rfl) .refl rfl
  | challenge => exact sized.challenge reached taken
  | move now pkt addr pending | finish i data addr waits answered =>
    exact sized.move reached taken unprobed rfl rfl rfl

/-- In every run in which the address changes only while the size is the base
and no probe is outstanding, a larger size was validated at the address the
connection has. -/
theorem current_validated {localCID remoteCID : ConnectionID} {addr : Addr}
    {isInitiator validated : Bool} {start : Time} {inputs : List Input}
    (unprobed : Runs.Along step MovesUnprobed
      (newHost localCID remoteCID addr isInitiator validated start : Host F) inputs)
    (reached : Runs.run step (newHost localCID remoteCID addr isInitiator validated start) inputs =
      some h)
    (large : safeDatagramSize < h.conn.mtu.current) :
    Validated (newHost localCID remoteCID addr isInitiator validated start : Host F) inputs h := by
  have sized : Sized (newHost localCID remoteCID addr isInitiator validated start : Host F)
      inputs h := by
    refine Runs.trace_invariant _ ⟨?_, ?_⟩ (fun _ _ _ _ => Sized.step) unprobed reached
    · exact fun _ member => absurd member List.not_mem_nil
    · exact fun large => absurd large (Nat.lt_irrefl _)
  exact sized.validated large

instance (c : Connection F) : Decidable c.Probeless := by
  unfold Connection.Probeless
  infer_instance

instance (h : Host F) (input : Input) : Decidable (h.MovesUnprobed input) := by
  unfold MovesUnprobed
  infer_instance

/-- The peer's ACK of the packets under these numbers. -/
def ackPacket (seqs : List UInt32) : Packet :=
  freshHost.conn.packet 0 0 0 [.ack ((RecvTracker.addAll {} seqs).frame 0)]

/-- A byte of data is acknowledged, and then the probe that follows it. -/
def probeAcked : List Input :=
  [.openStream, .write 0 1 true [0]] ++ packet 1 (ackPacket [0]) ++ packet 2 (ackPacket [0, 1])

/-- The connection moves with the size it has. -/
def movedAtSize : List Input := probeAcked ++ rebound ++ packet 3 answerPacket

/-- No probe ever went out to where the connection now is. -/
theorem movedAtSize_unvalidated :
    ∃ h : Host ℚ, Runs.run step freshHost movedAtSize = some h ∧
      safeDatagramSize < h.conn.mtu.current ∧ ¬ Validated freshHost movedAtSize h := by
  have moves : (Runs.run step freshHost movedAtSize).any (fun h =>
      decide (safeDatagramSize < h.conn.mtu.current ∧
        ∀ d ∈ h.conn.wire, d.addr = h.conn.remoteAddr →
          (marshalPacket d.packet).length ≠ h.conn.mtu.current)) = true := by decide +kernel
  obtain ⟨h, reached, test⟩ := Runs.reaches_of_any moves
  obtain ⟨large, never⟩ := of_decide_eq_true test
  refine ⟨h, reached, large, ?_⟩
  rintro ⟨before, now, pkt, f, after, mid, whole, first, acked, -⟩
  obtain ⟨n, -, p, -, -, size, d, member, there, -, -, length⟩ := acked
  rw [whole, Runs.run_append, first] at reached
  exact never d (wire_subset_run reached member) there (length.trans size)

theorem current_validated_probeAcked :
    ∃ h : Host ℚ, Runs.run step freshHost probeAcked = some h ∧
      h.conn.mtu.current = maxDatagramSize ∧ Validated freshHost probeAcked h := by
  have grows : (Runs.run step freshHost probeAcked).any (fun h =>
      decide (h.conn.mtu.current = maxDatagramSize)) = true := by decide +kernel
  have unprobed : Runs.Along step MovesUnprobed freshHost probeAcked := by decide +kernel
  obtain ⟨h, reached, test⟩ := Runs.reaches_of_any grows
  have size := of_decide_eq_true test
  exact ⟨h, reached, size, current_validated unprobed reached (by rw [size]; decide)⟩

end Host

end Udx

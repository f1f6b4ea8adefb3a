import Udx.Host

set_option autoImplicit false

/- The anti-amplification limit. `sendPacket` and `prepareDataPacket` consult
it; `retransmitPacket`, `probeMTU` and `sendControlTo` do not. -/

namespace Udx

variable {F : Type} [Float64 F]

namespace Connection

variable {c : Connection F}

/-- The bytes handed over without a look at the limit. -/
def uncheckedBytes (wire : List Datagram) : Nat := wireBytes (wire.filter fun d => !d.checked)

theorem uncheckedBytes_append (later earlier : List Datagram) :
    uncheckedBytes (later ++ earlier) = uncheckedBytes later + uncheckedBytes earlier := by
  rw [uncheckedBytes, List.filter_append, wireBytes_append, uncheckedBytes, uncheckedBytes]

theorem wireBytes_cons (d : Datagram) (wire : List Datagram) :
    wireBytes (d :: wire) = (marshalPacket d.packet).length + wireBytes wire := rfl

omit [Float64 F] in
/-- What is handed over exceeds the limit by no more than the unchecked bytes. -/
theorem Handed.bytes_le {sent : List Datagram} (handed : c.Handed sent)
    (unvalidated : c.addrValidated = false) {excess : Nat}
    (within : c.bytesSent ≤ c.bytesReceived * amplificationFactor + excess) :
    c.bytesSent + wireBytes sent ≤
      c.bytesReceived * amplificationFactor + (uncheckedBytes sent + excess) := by
  induction handed with
  | nil => exact Nat.le_trans within (by omega)
  | @cons d sent earlier addr limit ih =>
    cases consulted : d.checked with
    | true => exact Nat.le_trans (limit consulted unvalidated) (by omega)
    | false =>
      have counted : uncheckedBytes (d :: sent) =
          (marshalPacket d.packet).length + uncheckedBytes sent := by
        rw [uncheckedBytes, List.filter_cons_of_pos (by simp [consulted]), wireBytes_cons]
        rfl
      rw [wireBytes_cons, counted]
      omega

end Connection

namespace Host

open Connection (wireBytes uncheckedBytes wireBytes_append wireBytes_cons uncheckedBytes_append)

variable {h h' : Host F}

/-- Every byte handed over is counted, and before the address is validated the
checked ones stay within the limit. -/
structure Counted (h : Host F) : Prop where
  bytes : h.conn.bytesSent = wireBytes h.conn.wire
  bound : h.conn.addrValidated = false →
    h.conn.bytesSent ≤
      h.conn.bytesReceived * amplificationFactor + uncheckedBytes h.conn.wire

omit [Float64 F] in
theorem Counted.deliver {c : Connection F} (counted : h.Counted) (delivers : h.conn.Delivers c)
    (callers : List (Vector UInt8 8 × Addr)) :
    ({ h with conn := c, callers := callers } : Host F).Counted := by
  obtain ⟨sent, handed, wire, bytes, -⟩ := delivers.sent
  have validated : c.addrValidated = h.conn.addrValidated :=
    congrArg Connection.Path.addrValidated delivers.path
  have received : c.bytesReceived = h.conn.bytesReceived :=
    congrArg Connection.Path.bytesReceived delivers.path
  refine ⟨?_, fun unvalidated => ?_⟩
  · show c.bytesSent = wireBytes c.wire
    rw [bytes, wire, wireBytes_append, counted.bytes, Nat.add_comm]
  · rw [validated] at unvalidated
    show c.bytesSent ≤ c.bytesReceived * amplificationFactor + uncheckedBytes c.wire
    rw [bytes, wire, received, uncheckedBytes_append]
    exact handed.bytes_le unvalidated (counted.bound unvalidated)

omit [Float64 F] in
theorem Counted.challenge (counted : h.Counted) (frames : List Frame) (addr : Addr)
    (challenges : List (Vector UInt8 8 × Addr)) :
    ({ h with conn := h.conn.sendControlTo frames addr, challenges := challenges } :
      Host F).Counted := by
  let d : Datagram := ⟨h.conn.packet 0 0 0 frames, addr, false⟩
  have unchecked : uncheckedBytes (d :: h.conn.wire) =
      (marshalPacket d.packet).length + uncheckedBytes h.conn.wire := rfl
  refine ⟨?_, fun unvalidated => ?_⟩
  · show h.conn.bytesSent + (marshalPacket d.packet).length = wireBytes (d :: h.conn.wire)
    rw [wireBytes_cons, counted.bytes, Nat.add_comm]
  · have before := counted.bound unvalidated
    show h.conn.bytesSent + (marshalPacket d.packet).length ≤
      h.conn.bytesReceived * amplificationFactor + uncheckedBytes (d :: h.conn.wire)
    omega

theorem Counted.step {input : Input} (counted : h.Counted) (taken : h.step input = some h') :
    h'.Counted := by
  cases step_effect taken with
  | serve callers changes => exact counted.deliver changes.serves.toDelivers callers
  | close now code reason announce =>
    exact counted.deliver (Connection.serves_closeInternal now code reason announce).toDelivers
      h.callers
  | openStream | raise => exact ⟨counted.bytes, counted.bound⟩
  | enter now pkt f _ _ _ changes =>
    exact counted.deliver changes.serves_entered.toDelivers h.callers
  | arrive now pkt =>
    refine ⟨counted.bytes, fun unvalidated => Nat.le_trans (counted.bound unvalidated) ?_⟩
    exact Nat.add_le_add_right (Nat.mul_le_mul_right _ (Nat.le_add_right _ _)) _
  | ack now pkt f => exact counted.deliver (Connection.keeps_handleAckFrame now f).delivers h.callers
  | challenge => exact counted.challenge _ _ _
  | move | finish => exact ⟨counted.bytes, nofun⟩
  | respond | pend | reject => exact ⟨counted.bytes, counted.bound⟩

/-- In every run that ends before the address is validated, if every datagram
went out through a check of the limit, the bytes handed over stay within it. -/
theorem bytesSent_le_of_checked {localCID remoteCID : ConnectionID} {addr : Addr}
    {isInitiator : Bool} {start : Time} {inputs : List Input}
    (reached : Runs.run step (newHost localCID remoteCID addr isInitiator false start) inputs =
      some h)
    (unvalidated : h.conn.addrValidated = false)
    (checked : ∀ d ∈ h.conn.wire, d.checked = true) :
    h.conn.bytesSent = wireBytes h.conn.wire ∧
      h.conn.bytesSent ≤ amplificationFactor * h.conn.bytesReceived := by
  have counted : h.Counted := Runs.invariant_of_forall Counted (fun _ _ _ => Counted.step)
    ⟨rfl, fun _ => Nat.le_refl _⟩ reached
  have none : uncheckedBytes h.conn.wire = 0 := by
    rw [uncheckedBytes, List.filter_eq_nil_iff.mpr fun d member => by simp [checked d member]]
    rfl
  have bound := counted.bound unvalidated
  refine ⟨counted.bytes, ?_⟩
  rw [Nat.mul_comm]
  omega

/-- A connection whose peer's address is not validated, its clock at zero. -/
def unvalidatedHost : Host ℚ :=
  newHost ⟨[], Nat.zero_le _⟩ ⟨[], Nat.zero_le _⟩ "peer" false false 0

/-- A byte written is held back by the limit; the probe timeout sends it. -/
def heldBackThenProbed : List Input :=
  [.openStream, .write 0 2 true [0], .pto 2000000000]

theorem heldBackThenProbed_exceeds :
    ∃ h, Runs.run step unvalidatedHost heldBackThenProbed = some h ∧
      h.conn.addrValidated = false ∧
      ¬ h.conn.bytesSent ≤ amplificationFactor * h.conn.bytesReceived := by
  have exceeds : (Runs.run step unvalidatedHost heldBackThenProbed).any (fun h =>
      decide (h.conn.addrValidated = false ∧
        ¬ h.conn.bytesSent ≤ amplificationFactor * h.conn.bytesReceived)) = true := by
    decide +kernel
  obtain ⟨h, reached, test⟩ := Runs.reaches_of_any exceeds
  exact ⟨h, reached, of_decide_eq_true test⟩

/-- A byte that arrives is acknowledged within the limit. -/
theorem bytesSent_le_of_checked_acknowledged :
    ∃ h, Runs.run step unvalidatedHost
        (packet 0 (unvalidatedHost.conn.packet 0 0 1 [.stream ⟨false, true, 0, [0]⟩])) = some h ∧
      0 < h.conn.bytesSent ∧ h.conn.bytesSent = wireBytes h.conn.wire ∧
      h.conn.bytesSent ≤ amplificationFactor * h.conn.bytesReceived := by
  have acknowledged : (Runs.run step unvalidatedHost
      (packet 0 (unvalidatedHost.conn.packet 0 0 1 [.stream ⟨false, true, 0, [0]⟩]))).any (fun h =>
        decide (h.conn.addrValidated = false ∧ (∀ d ∈ h.conn.wire, d.checked = true) ∧
          0 < h.conn.bytesSent)) = true := by
    decide +kernel
  obtain ⟨h, reached, test⟩ := Runs.reaches_of_any acknowledged
  obtain ⟨unvalidated, checked, positive⟩ := of_decide_eq_true test
  exact ⟨h, reached, positive, bytesSent_le_of_checked reached unvalidated checked⟩

end Host

end Udx

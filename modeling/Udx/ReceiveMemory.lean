import Udx.FlowLimits
import Udx.Lib.Tables
import Udx.StreamLifecycle

set_option autoImplicit false

/- What a peer can make a stream hold. -/

namespace Udx

namespace Stream

variable {s t : Stream}

/-- The bytes of the chunks held out of order. -/
def heldBytes (s : Stream) : Nat := (s.recvOOO.entries.map fun c => c.2.length).sum

/-- The out-of-order buffer's count is right and within its cap. -/
structure Capped (s : Stream) : Prop where
  total : s.oooBytes = s.heldBytes
  cap : s.oooBytes ≤ maxStreamRecvOOO

/-- `total` bytes have been read, and nothing beyond `n` has been delivered or is
held. -/
structure UpTo (n : Nat) (s : Stream) (total : Nat) : Prop where
  read : total + s.recvBuf.length = s.recvOffset
  inside : s.recvOffset ≤ n
  held : ∀ offset chunk, s.recvOOO.lookup offset = some chunk → offset + chunk.length ≤ n

/-- What is delivered or held was advertised, and the limit is never more than a
window beyond what the application has read. -/
structure Metered (s : Stream) : Prop where
  upTo : ∃ n : Nat, n < 2 ^ 64 ∧ n ≤ s.streamFC.lastAdvertised ∧ s.UpTo n s.bytesRead
  consumed : s.streamFC.dataConsumed = s.bytesRead
  limit : s.streamFC.lastAdvertised ≤ s.streamFC.dataConsumed + s.streamFC.recvWindow
  nonneg : 0 ≤ s.streamFC.recvWindow
  window : s.streamFC.recvWindow ≤ maxStreamRecvWindow

/-- The frame ends within the limit last advertised to the peer. -/
def Within (s : Stream) : Op → Prop
  | .deliverData offset data =>
    (offset.toNat + data.length : Int) ≤ s.streamFC.lastAdvertised ∧
      offset.toNat + data.length < 2 ^ 64
  | _ => True

instance (s : Stream) (op : Op) : Decidable (s.Within op) := by
  unfold Within
  split <;> infer_instance

/-- The part of a stream that receives. -/
def receiving (s : Stream) :
    (List UInt8 × AList (fun _ : Nat => List UInt8) × Nat × Int) × Nat × Int × Int × Int :=
  ((s.recvBuf, s.recvOOO, s.recvOffset, s.oooBytes), s.bytesRead, s.streamFC.dataConsumed,
    s.streamFC.recvWindow, s.streamFC.lastAdvertised)

theorem Capped.congr (capped : s.Capped) (same : t.receiving = s.receiving) : t.Capped := by
  simp only [receiving, Prod.mk.injEq] at same
  obtain ⟨⟨-, ooo, -, bytes⟩, -⟩ := same
  refine ⟨?_, bytes ▸ capped.cap⟩
  rw [bytes, capped.total, heldBytes, heldBytes, ooo]

theorem UpTo.congr {n total : Nat} (upTo : s.UpTo n total) (same : t.receiving = s.receiving) :
    t.UpTo n total := by
  simp only [receiving, Prod.mk.injEq] at same
  obtain ⟨⟨buf, ooo, offset, -⟩, -⟩ := same
  refine ⟨?_, offset ▸ upTo.inside, ooo ▸ upTo.held⟩
  rw [buf, offset, upTo.read]

theorem Metered.congr (metered : s.Metered) (same : t.receiving = s.receiving) : t.Metered := by
  obtain ⟨n, small, within, upTo⟩ := metered.upTo
  have filled := upTo.congr same
  simp only [receiving, Prod.mk.injEq] at same
  obtain ⟨-, read, consumed, window, last⟩ := same
  refine ⟨⟨n, small, last ▸ within, read ▸ filled⟩, ?_, ?_, window ▸ metered.nonneg,
    window ▸ metered.window⟩
  · rw [consumed, read, metered.consumed]
  · rw [last, consumed, window]
    exact metered.limit

theorem receiving_finishLocked : s.finishLocked.receiving = s.receiving := by
  unfold finishLocked
  split <;> rfl

theorem receiving_reset (code : UInt32) : (s.reset code).1.receiving = s.receiving := by
  unfold reset
  split <;> rfl

theorem receiving_deliverData (offset : Nat) (data : List UInt8) :
    (s.deliverData offset data).1.receiving = (s.placeLocked offset data).1.receiving := by
  unfold deliverData
  dsimp only
  split
  · exact receiving_reset _
  · split
    · exact receiving_finishLocked
    · rfl

theorem receiving_applyWindowUpdate (wire : UInt32) :
    (s.onWindowUpdate wire).receiving = s.receiving := by
  unfold onWindowUpdate StreamFlowController.applyWindowUpdate
    StreamFlowController.updateMaxStreamData
  split <;> rfl

/-- Only a delivery or a read changes what has been received. -/
theorem receiving_apply {op : Op} (delivers : ∀ offset data, op ≠ .deliverData offset data)
    (reads : ∀ size expired, op ≠ .read size expired) : (s.apply op).receiving = s.receiving := by
  cases op with
  | write ask granted remaining =>
    simp only [apply]
    split
    · rename_i committed
      rw [(s.writeCommit_eq_some committed).2.2.2]
      rfl
    · rfl
  | close =>
    simp only [apply, close]
    split <;> rfl
  | reset code => exact receiving_reset code
  | deliverData offset data => exact absurd rfl (delivers offset data)
  | deliverFin finalSize => exact receiving_finishLocked
  | deliverReset code => rfl
  | windowUpdate wire => exact receiving_applyWindowUpdate wire
  | read size expired => exact absurd rfl (reads size expired)

theorem heldBytes_erase {chunk : List UInt8} {offset : Nat}
    (found : s.recvOOO.lookup offset = some chunk) (rest : t.recvOOO = s.recvOOO.erase offset) :
    s.heldBytes = chunk.length + t.heldBytes := by
  unfold heldBytes
  rw [rest, ((Tables.perm_erase found).map _).sum_nat, List.map_cons, List.sum_cons]

theorem Capped.release (capped : s.Capped) (fuel : Nat) : (release fuel s).Capped := by
  induction fuel generalizing s with
  | zero => exact capped
  | succ fuel ih =>
    rw [Stream.release]
    split
    · exact capped
    · rename_i chunk found
      have total := capped.total
      have cap := capped.cap
      have less := heldBytes_erase (t := { s with
        recvOOO := s.recvOOO.erase s.recvOffset
        oooBytes := s.oooBytes - chunk.length
        recvBuf := s.recvBuf ++ chunk
        recvOffset := (s.recvOffset + chunk.length) % 2 ^ 64 }) found rfl
      refine ih ⟨?_, ?_⟩
      · dsimp only
        omega
      · dsimp only
        omega

theorem Capped.placeLocked (capped : s.Capped) (offset : Nat) (data : List UInt8) :
    (s.placeLocked offset data).1.Capped := by
  have appended (buf : List UInt8) (stop : Nat) :
      ({ s with recvBuf := buf, recvOffset := stop } : Stream).Capped :=
    ⟨capped.total, capped.cap⟩
  unfold Stream.placeLocked
  dsimp only
  split
  · exact capped
  · generalize (if offset < s.recvOffset then (s.recvOffset, data.drop (s.recvOffset - offset))
      else (offset, data)) = chunk
    split
    · split
      · exact capped
      · rename_i absent
        split
        · exact ⟨capped.total, capped.cap⟩
        · rename_i fits
          refine ⟨?_, Int.not_lt.mp fits⟩
          have total := capped.total
          unfold heldBytes at total ⊢
          rw [AList.entries_insert_of_notMem absent, List.map_cons, List.sum_cons, Int.natCast_add,
            ← total, Int.add_comm]
    · exact (appended _ _).release _

theorem Capped.read (capped : s.Capped) (size : Nat) (expired : Bool) :
    (s.read size expired).1.Capped := by
  have reads := s.reads_read size expired
  generalize s.read size expired = out at reads ⊢
  cases reads with
  | aborted | ended | waits => exact capped
  | takes => exact ⟨capped.total, capped.cap⟩

theorem Capped.apply (capped : s.Capped) (op : Op) : (s.apply op).Capped := by
  cases op with
  | deliverData offset data =>
    exact (capped.placeLocked offset.toNat data).congr (receiving_deliverData _ _)
  | read size expired => exact capped.read size expired
  | _ => exact capped.congr (receiving_apply nofun nofun)

section UpTo

variable {n total : Nat}

theorem UpTo.mono {m : Nat} (upTo : s.UpTo n total) (le : n ≤ m) : s.UpTo m total :=
  ⟨upTo.read, upTo.inside.trans le, fun offset chunk found =>
    (upTo.held offset chunk found).trans le⟩

theorem UpTo.append (upTo : s.UpTo n total) {data : List UInt8} {stop : Nat}
    {ooo : AList (fun _ : Nat => List UInt8)} {bytes : Int}
    (ends : stop = s.recvOffset + data.length) (within : stop ≤ n)
    (held : ∀ offset chunk, ooo.lookup offset = some chunk →
      s.recvOOO.lookup offset = some chunk) :
    UpTo n { s with
      recvBuf := s.recvBuf ++ data, recvOOO := ooo, oooBytes := bytes
      recvOffset := stop } total := by
  refine ⟨?_, within, fun offset chunk found => upTo.held offset chunk (held offset chunk found)⟩
  dsimp only
  rw [List.length_append, ends, ← upTo.read, Nat.add_assoc]

theorem UpTo.release (small : n < 2 ^ 64) (upTo : s.UpTo n total) (fuel : Nat) :
    (release fuel s).UpTo n total := by
  induction fuel generalizing s with
  | zero => exact upTo
  | succ fuel ih =>
    rw [Stream.release]
    split
    · exact upTo
    · rename_i chunk found
      have within := upTo.held _ _ found
      have stop : (s.recvOffset + chunk.length) % 2 ^ 64 = s.recvOffset + chunk.length :=
        Nat.mod_eq_of_lt (by omega)
      refine ih (upTo.append stop (stop.le.trans within) fun offset other kept => ?_)
      by_cases same : offset = s.recvOffset
      · rw [same, AList.lookup_erase] at kept
        cases kept
      · rwa [AList.lookup_erase_ne same] at kept

theorem UpTo.placeLocked (small : n < 2 ^ 64) (upTo : s.UpTo n total) {offset : Nat}
    {data : List UInt8} (within : offset + data.length ≤ n) :
    (s.placeLocked offset data).1.UpTo n total := by
  have stop : (offset + data.length) % 2 ^ 64 = offset + data.length :=
    Nat.mod_eq_of_lt (by omega)
  have placed := s.placed_placeLocked offset data
  generalize s.placeLocked offset data = out at placed ⊢
  cases placed with
  | known | held => exact upTo
  | excess => exact ⟨upTo.read, upTo.inside, upTo.held⟩
  | early =>
    refine ⟨upTo.read, upTo.inside, fun other chunk found => ?_⟩
    by_cases same : other = offset
    · rw [same, AList.lookup_insert, Option.some.injEq] at found
      rw [same, ← found]
      exact within
    · exact upTo.held other chunk (by rwa [AList.lookup_insert_ne same] at found)
  | next beyond begun =>
    rw [stop] at beyond ⊢
    refine UpTo.release small (upTo.append ?_ within fun _ _ found => found) _
    rw [List.length_drop]
    omega

theorem UpTo.take (upTo : s.UpTo n total) (size : Nat) {read : Nat} {fc : StreamFlowController} :
    UpTo n { s with
      recvBuf := s.recvBuf.drop (s.recvBuf.take size).length
      bytesRead := read
      streamFC := fc } (total + (s.recvBuf.take size).length) := by
  refine ⟨?_, upTo.inside, upTo.held⟩
  have part : (s.recvBuf.take size).length ≤ s.recvBuf.length := by
    rw [List.length_take]
    exact Nat.min_le_right _ _
  have := upTo.read
  dsimp only
  rw [List.length_drop]
  omega

end UpTo

theorem Metered.placeLocked (metered : s.Metered) {offset : Nat} {data : List UInt8}
    (within : (offset + data.length : Int) ≤ s.streamFC.lastAdvertised)
    (small : offset + data.length < 2 ^ 64) : (s.placeLocked offset data).1.Metered := by
  obtain ⟨n, small', within', upTo⟩ := metered.upTo
  have top : max n (offset + data.length) < 2 ^ 64 := Nat.max_lt.mpr ⟨small', small⟩
  have placed := (upTo.mono (Nat.le_max_left n (offset + data.length))).placeLocked top
    (Nat.le_max_right n (offset + data.length))
  obtain ⟨_, _, _, _, _, same⟩ := s.sameButBuffers_placeLocked offset data
  rw [same] at placed ⊢
  exact ⟨⟨_, top, by dsimp only; omega, placed⟩, metered.consumed, metered.limit, metered.nonneg,
    metered.window⟩

theorem Metered.reading (metered : s.Metered) (size : Nat) (expired : Bool) :
    (s.read size expired).1.Metered := by
  have reads := s.reads_read size expired
  generalize s.read size expired = out at reads ⊢
  cases reads with
  | aborted | ended | waits => exact metered
  | takes full fc frames books =>
    obtain ⟨⟨n, small, within, upTo⟩, consumed, limit, nonneg, window⟩ := metered
    -- the limit rises with what is read, and never falls
    have fair : fc.dataConsumed = s.streamFC.dataConsumed + (s.recvBuf.take size).length ∧
        s.streamFC.lastAdvertised ≤ fc.lastAdvertised ∧
        fc.lastAdvertised ≤ fc.dataConsumed + fc.recvWindow ∧
        0 ≤ fc.recvWindow ∧ fc.recvWindow ≤ maxStreamRecvWindow := by
      generalize (s.recvBuf.take size).length = count at books
      rcases books with rfl | rfl
      · refine ⟨rfl, Int.le_refl _, ?_, nonneg, window⟩
        simp only [StreamFlowController.onDataConsumed]
        omega
      · have advertised := StreamFlowController.advertised_advertiseLimit
          (s.streamFC.onDataConsumed count).1 nonneg
        obtain ⟨-, same, grown, capped, last, -⟩ := advertised
        simp only [StreamFlowController.onDataConsumed] at same grown capped last ⊢
        rw [last, same]
        omega
    refine ⟨⟨n, small, within.trans fair.2.1, upTo.take size⟩, ?_, fair.2.2.1, fair.2.2.2.1,
      fair.2.2.2.2⟩
    dsimp only
    rw [fair.1, consumed]
    push_cast
    rfl

theorem Metered.apply (metered : s.Metered) {op : Op} (within : s.Within op) :
    (s.apply op).Metered := by
  cases op with
  | deliverData offset data =>
    exact (metered.placeLocked within.1 within.2).congr (receiving_deliverData _ _)
  | read size expired => exact metered.reading size expired
  | _ => exact metered.congr (receiving_apply nofun nofun)

theorem capped_fresh (id remoteID : UInt32) (accepted : Bool) :
    (fresh id remoteID initialFC accepted).Capped :=
  ⟨rfl, Int.natCast_nonneg _⟩

theorem metered_fresh (id remoteID : UInt32) (accepted : Bool) :
    (fresh id remoteID initialFC accepted).Metered := by
  refine ⟨⟨0, by decide, Int.natCast_nonneg _, rfl, Nat.le_refl _, nofun⟩, rfl, ?_,
    Int.natCast_nonneg _, ?_⟩
  · exact Int.le_of_eq (Int.zero_add _).symm
  · exact Int.ofNat_le.mpr (by decide)

/-- Whatever the peer sends and the application does, the out-of-order buffer
stays within its cap; and if every frame ends within the limit last advertised,
all a stream has received and not handed over stays within window and cap. -/
theorem receive_memory_bounded (id remoteID : UInt32) (accepted : Bool) {ops : List Op} {h : Lived}
    (reached : Runs.run Lived.step { stream := fresh id remoteID initialFC accepted } ops = some h) :
    (0 ≤ h.stream.oooBytes ∧ h.stream.oooBytes ≤ maxStreamRecvOOO) ∧
      (Runs.Along Lived.step (fun h op => h.stream.Within op) { stream := fresh id remoteID initialFC accepted } ops →
        h.stream.recvBuf.length + h.stream.oooBytes ≤ maxStreamRecvWindow + maxStreamRecvOOO) := by
  have capped : h.stream.Capped := by
    refine Runs.invariant_of_forall (fun h : Lived => h.stream.Capped) ?_
      (capped_fresh id remoteID accepted) reached
    rintro k op _ capped ⟨⟩
    exact capped.apply op
  have total := capped.total
  have cap := capped.cap
  refine ⟨⟨by omega, cap⟩, fun within => ?_⟩
  have metered : h.stream.Metered := by
    refine Runs.invariant (fun h : Lived => h.stream.Metered) ?_
      (metered_fresh id remoteID accepted) within reached
    rintro k op _ metered permitted ⟨⟩
    exact metered.apply permitted
  obtain ⟨n, -, within, upTo⟩ := metered.upTo
  have := upTo.read
  have := upTo.inside
  have := metered.consumed
  have := metered.limit
  have := metered.window
  omega

/-- A peer whose last byte overtakes the first, within the first limit. -/
theorem receive_memory_bounded_overtaken :
    ∃ h, Runs.run Lived.step { stream := fresh 2 1 initialFC true }
        [.deliverData 1 [2], .deliverData 0 [1], .deliverFin 2, .read 1 false] = some h ∧
      h.stream.recvBuf.length + h.stream.oooBytes ≤ maxStreamRecvWindow + maxStreamRecvOOO := by
  have within : Runs.Along Lived.step (fun h op => h.stream.Within op) { stream := fresh 2 1 initialFC true }
      [.deliverData 1 [2], .deliverData 0 [1], .deliverFin 2, .read 1 false] := by decide +kernel
  exact ⟨_, rfl, (receive_memory_bounded 2 1 true rfl).2 within⟩

/-- A peer that sends chunk after chunk in order and waits for nothing. -/
def flood (chunk : List UInt8) (count : Nat) : List Op :=
  (List.range count).map fun k => .deliverData (UInt64.ofNat (k * chunk.length)) chunk

theorem placeLocked_inOrder (empty : s.recvOOO = ∅) {data : List UInt8} (some' : data ≠ [])
    (small : s.recvOffset + data.length < 2 ^ 64) :
    s.placeLocked s.recvOffset data =
      ({ s with
        recvBuf := s.recvBuf ++ data
        recvOffset := s.recvOffset + data.length }, data.length) := by
  have long := List.length_pos_iff.mpr some'
  have stop : (s.recvOffset + data.length) % 2 ^ 64 = s.recvOffset + data.length :=
    Nat.mod_eq_of_lt small
  unfold Stream.placeLocked
  rw [stop, if_neg (by omega), if_neg (Nat.lt_irrefl _)]
  dsimp only
  rw [if_neg (Nat.lt_irrefl _), empty]
  rfl

theorem deliverData_inOrder (empty : s.recvOOO = ∅) (lawful : s.flowControlViolation = false)
    (unended : s.finSeen = false) {data : List UInt8} (some' : data ≠ [])
    (small : s.recvOffset + data.length < 2 ^ 64) :
    (s.deliverData s.recvOffset data).1 =
      { s with
        recvBuf := s.recvBuf ++ data
        recvOffset := s.recvOffset + data.length
        streamFC := s.streamFC.onDataReceived data.length } := by
  have long := List.length_pos_iff.mpr some'
  unfold Stream.deliverData
  rw [placeLocked_inOrder empty some' small]
  dsimp only
  rw [if_neg (by simp [lawful]), if_pos long]
  simp [finishLocked, unended]

theorem run_flood {chunk : List UInt8} (some' : chunk ≠ []) {count : Nat}
    (small : count * chunk.length < 2 ^ 64) :
    ∃ h, Runs.run Lived.step { stream := fresh 2 1 initialFC true } (flood chunk count) = some h ∧
      h.stream.recvOOO = ∅ ∧ h.stream.flowControlViolation = false ∧ h.stream.finSeen = false ∧
      h.stream.recvOffset = count * chunk.length ∧
      h.stream.recvBuf.length = count * chunk.length ∧
      h.stream.oooBytes = 0 ∧ h.stream.state = .opened := by
  induction count with
  | zero => exact ⟨_, rfl, rfl, rfl, rfl, (Nat.zero_mul _).symm, (Nat.zero_mul _).symm, rfl, rfl⟩
  | succ count ih =>
    rw [Nat.succ_mul] at small ⊢
    obtain ⟨h, reached, empty, lawful, unended, offset, buffered, none, open'⟩ := ih (by omega)
    have next : flood chunk (count + 1) = flood chunk count ++
        [.deliverData (UInt64.ofNat (count * chunk.length)) chunk] := by
      rw [flood, List.range_succ, List.map_append]
      rfl
    have here : (UInt64.ofNat (count * chunk.length)).toNat = h.stream.recvOffset := by
      rw [offset, UInt64.toNat_ofNat_of_lt' (by rw [UInt64.size]; omega)]
    have grown : (h.after (.deliverData (UInt64.ofNat (count * chunk.length)) chunk)).stream =
        { h.stream with
          recvBuf := h.stream.recvBuf ++ chunk
          recvOffset := h.stream.recvOffset + chunk.length
          streamFC := h.stream.streamFC.onDataReceived chunk.length } := by
      rw [← deliverData_inOrder empty lawful unended some' (by omega), ← here]
      rfl
    refine ⟨_, next ▸ Runs.run_append_singleton reached rfl, ?_⟩
    rw [grown]
    refine ⟨empty, lawful, unended, ?_, ?_, none, open'⟩
    · dsimp only
      rw [offset]
    · rw [List.length_append, buffered]

/-- The in-order path checks no limit: 12583 frames of 1000 bytes, none of them
read, hold more than window and cap, and the stream is still open. -/
theorem flood_unbounded :
    ∃ h, Runs.run Lived.step { stream := fresh 2 1 initialFC true } (flood (List.replicate 1000 0) 12583) = some h ∧
      h.stream.state = .opened ∧
      maxStreamRecvWindow + maxStreamRecvOOO < h.stream.recvBuf.length + h.stream.oooBytes := by
  have long : (List.replicate 1000 (0 : UInt8)).length = 1000 := List.length_replicate
  generalize List.replicate 1000 (0 : UInt8) = chunk at long ⊢
  have flooded : 12583 * chunk.length < 2 ^ 64 := by
    rw [long]
    decide
  obtain ⟨h, reached, -, -, -, -, buffered, none, open'⟩ :=
    run_flood (List.ne_nil_of_length_pos (by omega)) flooded
  refine ⟨h, reached, open', ?_⟩
  rw [buffered, none, long]
  decide

end Stream

end Udx

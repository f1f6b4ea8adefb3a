import Udx.ReceiveMemory
import Udx.StreamReassembly
import Udx.Teardown

set_option autoImplicit false

/- How a stream's end is read. -/

namespace Udx

namespace Stream

def readResults : Stream → List Op → List ReadResult
  | _, [] => []
  | s, .read size expired :: rest =>
    (s.read size expired).2.1 :: readResults (s.read size expired).1 rest
  | s, op :: rest => readResults (s.apply op) rest

def firstFin (ops : List Op) : Option UInt64 :=
  ops.findSome? fun
    | .deliverFin finalSize => some finalSize
    | _ => none

def step (s : Stream) (op : Op) : Option Stream := some (s.apply op)

/-- The frame agrees with a stream of `size` bytes. -/
def Op.Consistent (size : UInt64) : Op → Prop
  | .deliverData offset data => offset.toNat + data.length ≤ size.toNat
  | .deliverFin finalSize => finalSize = size
  | _ => True

instance (size : UInt64) : (op : Op) → Decidable (op.Consistent size)
  | .deliverData offset data =>
    inferInstanceAs (Decidable (offset.toNat + data.length ≤ size.toNat))
  | .deliverFin finalSize => inferInstanceAs (Decidable (finalSize = size))
  | .write .. | .close | .reset _ | .deliverReset _ | .windowUpdate _ | .read .. => .isTrue trivial

/-- A stream of `n` bytes, `total` of them read. -/
structure Ends (n : Nat) (s : Stream) (total : Nat) : Prop where
  upTo : s.UpTo n total
  final : s.finSeen = true → s.finalSize = n
  complete : s.finReceived = true → s.finSeen = true ∧ s.recvOffset = n
  ended : s.state = .halfClosedRemote ∨ s.state = .closed → s.finReceived = true

variable {s : Stream} {n total : Nat}

theorem recvBuf_release (fuel : Nat) (s : Stream) : s.recvBuf <+: (release fuel s).recvBuf := by
  induction fuel generalizing s with
  | zero => exact List.prefix_refl _
  | succ fuel ih =>
    rw [Stream.release]
    split
    · exact List.prefix_refl _
    · refine List.IsPrefix.trans ?_ (ih _)
      exact List.prefix_append _ _

theorem recvBuf_placeLocked (offset : Nat) (data : List UInt8) :
    s.recvBuf <+: (s.placeLocked offset data).1.recvBuf := by
  have placed := s.placed_placeLocked offset data
  generalize s.placeLocked offset data = out at placed ⊢
  cases placed with
  | known | held | excess | early => exact List.prefix_refl _
  | next =>
    refine List.IsPrefix.trans ?_ (recvBuf_release _ _)
    exact List.prefix_append _ _

theorem Ends.placeLocked (small : n < 2 ^ 64) (ends : s.Ends n total) {offset : Nat}
    {data : List UInt8} (within : offset + data.length ≤ n) :
    (s.placeLocked offset data).1.Ends n total := by
  have upTo := ends.upTo.placeLocked small within
  have longer := (s.recvBuf_placeLocked offset data).length_le
  have before := ends.upTo.read
  have after := upTo.read
  have inside := upTo.inside
  obtain ⟨_, _, _, _, _, same⟩ := s.sameButBuffers_placeLocked offset data
  refine ⟨upTo, ?_, ?_, ?_⟩
  · rw [same]
    exact ends.final
  · rw [same] at longer after inside ⊢
    intro done
    obtain ⟨seen, all⟩ := ends.complete done
    exact ⟨seen, by dsimp only at longer after inside ⊢; omega⟩
  · rw [same]
    exact ends.ended

theorem Ends.finishLocked (ends : s.Ends n total) : s.finishLocked.Ends n total := by
  unfold Stream.finishLocked
  split
  · exact ends
  · rename_i ready
    simp only [Bool.or_eq_true, Bool.not_eq_true', decide_eq_true_eq, not_or, not_lt,
      Bool.not_eq_false] at ready
    obtain ⟨⟨seen, -⟩, reached⟩ := ready
    have inside := ends.upTo.inside
    have final := ends.final seen
    exact ⟨ends.upTo.congr rfl, ends.final, fun _ => ⟨seen, by dsimp only; omega⟩, fun _ => rfl⟩

theorem Ends.reset (ends : s.Ends n total) (code : UInt32) : (s.reset code).1.Ends n total := by
  unfold Stream.reset
  split
  · exact ends
  · exact ⟨ends.upTo.congr rfl, ends.final, ends.complete, by simp⟩

theorem Ends.deliverData (small : n < 2 ^ 64) (ends : s.Ends n total) {offset : Nat}
    {data : List UInt8} (within : offset + data.length ≤ n) :
    (s.deliverData offset data).1.Ends n total := by
  have placed := ends.placeLocked small within
  unfold Stream.deliverData
  dsimp only
  split
  · exact placed.reset _
  · split
    · apply Ends.finishLocked
      exact ⟨placed.upTo.congr rfl, placed.final, placed.complete, placed.ended⟩
    · exact placed

theorem Ends.deliverFin (ends : s.Ends n total) : (s.deliverFin n).Ends n total := by
  apply Ends.finishLocked
  exact ⟨ends.upTo.congr rfl, fun _ => rfl, fun done => ⟨rfl, (ends.complete done).2⟩,
    ends.ended⟩

theorem Ends.reading (ends : s.Ends n total) (size : Nat) (expired : Bool) :
    (s.read size expired).1.Ends n
      (total + (ReadResult.returned (s.read size expired).2.1).length) := by
  have reads := s.reads_read size expired
  generalize s.read size expired = out at reads ⊢
  cases reads with
  | aborted | ended => exact ends
  | waits =>
    have none : ReadResult.returned (if expired then .deadlineExceeded else .blocked) = [] := by
      split <;> rfl
    rw [none]
    exact ends
  | takes => exact ⟨ends.upTo.take size, ends.final, ends.complete, ends.ended⟩

theorem Ends.apply (ends : s.Ends n total) {size : UInt64} (same : n = size.toNat) {op : Op}
    (consistent : op.Consistent size) (other : ∀ size expired, op ≠ .read size expired) :
    (s.apply op).Ends n total := by
  have small : n < 2 ^ 64 := same ▸ size.toNat_lt
  cases op with
  | write ask granted remaining =>
    simp only [Stream.apply]
    split
    · rename_i t batch committed
      rw [(s.writeCommit_eq_some committed).2.2.2]
      refine ⟨ends.upTo.congr rfl, ends.final, ends.complete, fun over' => ?_⟩
      dsimp only at over'
      split at over'
      · rcases over' with half | closed
        · cases half
        · cases closed
      · exact ends.ended over'
    · exact ends
  | close =>
    simp only [Stream.apply, Stream.close]
    split
    · exact ends
    · refine ⟨ends.upTo.congr rfl, ends.final, ends.complete, fun over' => ?_⟩
      dsimp only at over'
      split at over'
      · exact ends.ended (.inl ‹_›)
      · rcases over' with half | closed
        · cases half
        · cases closed
  | reset code => exact ends.reset code
  | deliverData offset data => exact ends.deliverData small (same ▸ consistent)
  | deliverFin finalSize =>
    obtain rfl : finalSize = size := consistent
    have finished := ends.deliverFin
    rw [same] at finished ⊢
    exact finished
  | deliverReset code =>
    exact ⟨ends.upTo.congr rfl, ends.final, ends.complete, by
      simp [Stream.apply, Stream.deliverReset]⟩
  | windowUpdate wire =>
    exact ⟨ends.upTo.congr (receiving_applyWindowUpdate wire), ends.final, ends.complete,
      ends.ended⟩
  | read size expired => exact absurd rfl (other size expired)

/-- Everything has been read and the end is known. -/
structure Drained (n : Nat) (s : Stream) : Prop where
  ends : s.Ends n n
  finished : s.finReceived = true

theorem Drained.empty (drained : s.Drained n) : s.recvBuf = [] := by
  have := drained.ends.upTo.read
  have := drained.ends.upTo.inside
  exact List.eq_nil_of_length_eq_zero (by omega)

theorem finReceived_finishLocked (finished : s.finReceived = true) :
    s.finishLocked.finReceived = true := by
  rw [finishLocked_finReceived, finished, Bool.true_or]

theorem finReceived_reset (code : UInt32) : (s.reset code).1.finReceived = s.finReceived := by
  unfold reset
  split <;> rfl

theorem finReceived_apply (finished : s.finReceived = true) (op : Op) :
    (s.apply op).finReceived = true := by
  cases op with
  | write ask granted remaining =>
    simp only [Stream.apply]
    split
    · rename_i committed
      rw [(s.writeCommit_eq_some committed).2.2.2]
      exact finished
    · exact finished
  | close =>
    simp only [Stream.apply, Stream.close]
    split <;> exact finished
  | reset code => exact (finReceived_reset code).trans finished
  | deliverData offset data =>
    obtain ⟨_, _, _, _, _, same⟩ := s.sameButBuffers_placeLocked offset.toNat data
    simp only [Stream.apply, Stream.deliverData]
    rw [same]
    split
    · exact (finReceived_reset _).trans finished
    · split
      · exact finReceived_finishLocked finished
      · exact finished
  | deliverFin finalSize => exact finReceived_finishLocked finished
  | deliverReset code => exact finished
  | windowUpdate wire => exact finished
  | read size expired =>
    have reads := s.reads_read size expired
    rw [Stream.apply]
    generalize s.read size expired = out at reads ⊢
    cases reads with
    | aborted | ended | waits | takes => exact finished

theorem Drained.read (drained : s.Drained n) (live : s.state ≠ .reset) (size : Nat)
    (expired : Bool) : (s.read size expired).1 = s ∧ (s.read size expired).2.1 = .eof := by
  have reads := s.reads_read size expired
  generalize s.read size expired = out at reads ⊢
  cases reads with
  | aborted _ reset => exact absurd reset live
  | ended => exact ⟨rfl, rfl⟩
  | waits _ _ unfinished => cases unfinished.symm.trans drained.finished
  | takes full => exact absurd drained.empty full

/-- A read that finds the end has read everything. -/
theorem Ends.drained_of_eof (ends : s.Ends n total) {size : Nat} {expired : Bool}
    (eof : (s.read size expired).2.1 = .eof) :
    total = n ∧ (s.read size expired).1 = s ∧ s.finReceived = true := by
  have reads := s.reads_read size expired
  generalize s.read size expired = out at reads eof ⊢
  cases reads with
  | aborted => cases eof
  | ended empty live over' =>
    have finished : s.finReceived = true := over'.elim (fun done => done) fun closed => ends.ended (.inr closed)
    have read := ends.upTo.read
    have all := (ends.complete finished).2
    rw [empty, List.length_nil] at read
    exact ⟨by omega, rfl, finished⟩
  | waits =>
    dsimp only at eof
    split at eof <;> cases eof
  | takes => cases eof

theorem readResults_other {op : Op} (other : ∀ size expired, op ≠ .read size expired)
    (rest : List Op) : s.readResults (op :: rest) = (s.apply op).readResults rest := by
  cases op with
  | read size expired => exact absurd rfl (other size expired)
  | _ => rfl

theorem read_or_other (op : Op) :
    (∃ size expired, op = .read size expired) ∨ ∀ size expired, op ≠ .read size expired := by
  cases op with
  | read size expired => exact .inl ⟨size, expired, rfl⟩
  | _ => exact .inr nofun

theorem Drained.readResults {size : UInt64} {ops : List Op} (drained : s.Drained size.toNat)
    (consistent : ∀ op ∈ ops, op.Consistent size)
    (live : Runs.Along Stream.step (fun s _ => s.state ≠ .reset) s ops) :
    ∀ result ∈ s.readResults ops, result = .eof := by
  induction ops generalizing s with
  | nil => exact List.forall_mem_nil _
  | cons op rest ih =>
    obtain ⟨now, later⟩ := List.forall_mem_cons.mp consistent
    rcases read_or_other op with ⟨count, expired, rfl⟩ | other
    · obtain ⟨same, eof⟩ := drained.read live.1 count expired
      rw [Stream.readResults, same, eof, List.forall_mem_cons]
      exact ⟨rfl, ih drained later (live.2 s (congrArg some same))⟩
    · rw [readResults_other other]
      exact ih ⟨drained.ends.apply rfl now other, finReceived_apply drained.finished op⟩ later
        (live.2 _ rfl)

theorem finSeen_apply {op : Op} (other : ∀ finalSize, op ≠ .deliverFin finalSize) :
    (s.apply op).finSeen = s.finSeen := by
  cases op with
  | write ask granted remaining =>
    simp only [Stream.apply]
    split
    · rename_i committed
      rw [(s.writeCommit_eq_some committed).2.2.2]
    · rfl
  | close =>
    simp only [Stream.apply, Stream.close]
    split <;> rfl
  | reset code =>
    simp only [Stream.apply, Stream.reset]
    split <;> rfl
  | deliverData offset data => exact deliverData_finSeen _ _ _
  | deliverFin finalSize => exact absurd rfl (other finalSize)
  | deliverReset code => rfl
  | windowUpdate wire => rfl
  | read size expired => exact read_finSeen _ _ _

theorem Ends.announced {size : UInt64} {ops : List Op} (ends : s.Ends size.toNat total)
    (consistent : ∀ op ∈ ops, op.Consistent size) (eof : .eof ∈ s.readResults ops) :
    s.finSeen = true ∨ firstFin ops = some size := by
  induction ops generalizing s total with
  | nil => exact absurd eof List.not_mem_nil
  | cons op rest ih =>
    obtain ⟨now, later⟩ := List.forall_mem_cons.mp consistent
    rcases read_or_other op with ⟨count, expired, rfl⟩ | other
    · rw [Stream.readResults, List.mem_cons] at eof
      rcases eof with here | after
      · exact .inl (ends.complete (ends.drained_of_eof here.symm).2.2).1
      · refine (ih (ends.reading count expired) later after).imp_left fun seen => ?_
        rw [← read_finSeen s count expired]
        exact seen
    · rw [readResults_other other] at eof
      have next := ih (ends.apply rfl now other) later eof
      by_cases fin : ∃ finalSize, op = .deliverFin finalSize
      · obtain ⟨finalSize, rfl⟩ := fin
        exact .inr (congrArg some now)
      · have same : firstFin (op :: rest) = firstFin rest := by
          cases op with
          | deliverFin finalSize => exact absurd ⟨finalSize, rfl⟩ fin
          | _ => rfl
        rw [same, ← finSeen_apply fun finalSize is => fin ⟨finalSize, is⟩]
        exact next

/-- The reads up to the end return `size` bytes, those after it the end. -/
theorem Ends.readResults {size : UInt64} {ops : List Op} (ends : s.Ends size.toNat total)
    (consistent : ∀ op ∈ ops, op.Consistent size)
    (live : Runs.Along Stream.step (fun s _ => s.state ≠ .reset) s ops)
    (eof : .eof ∈ s.readResults ops) :
    (∀ result ∈ (s.readResults ops).dropWhile (· ≠ .eof), result = .eof) ∧
      total + ((s.readResults ops).map fun result => result.returned.length).sum = size.toNat := by
  induction ops generalizing s total with
  | nil => exact absurd eof List.not_mem_nil
  | cons op rest ih =>
    obtain ⟨now, later⟩ := List.forall_mem_cons.mp consistent
    rcases read_or_other op with ⟨count, expired, rfl⟩ | other
    · have alive := live.2 _ rfl
      have next := ends.reading count expired
      rw [Stream.readResults] at eof ⊢
      by_cases here : (s.read count expired).2.1 = .eof
      · obtain ⟨all, same, finished⟩ := ends.drained_of_eof here
        have drained : s.Drained size.toNat := ⟨all ▸ ends, finished⟩
        rw [same, here]
        have ended := drained.readResults later (live.2 s (congrArg some same))
        rw [List.dropWhile_cons_of_neg (by simp)]
        refine ⟨List.forall_mem_cons.mpr ⟨rfl, ended⟩, ?_⟩
        have none : ((s.readResults rest).map fun result => result.returned.length) =
            List.replicate (s.readResults rest).length 0 := by
          refine List.eq_replicate_iff.mpr ⟨List.length_map _, fun length member => ?_⟩
          obtain ⟨result, read, rfl⟩ := List.mem_map.mp member
          rw [ended result read]
          rfl
        rw [List.map_cons, List.sum_cons, none, List.sum_replicate_nat, all]
        simp [ReadResult.returned]
      · have after := (List.mem_cons.mp eof).resolve_left (Ne.symm here)
        obtain ⟨stable, sum⟩ := ih next later alive after
        rw [List.dropWhile_cons_of_pos (by simpa using here), List.map_cons, List.sum_cons,
          ← Nat.add_assoc]
        exact ⟨stable, sum⟩
    · rw [readResults_other other] at eof ⊢
      exact ih (ends.apply rfl now other) later (live.2 _ rfl) eof

theorem ends_fresh (n : Nat) (id remoteID : UInt32) (fc : StreamFlowController) (accepted : Bool) :
    (fresh id remoteID fc accepted).Ends n 0 := by
  refine ⟨⟨rfl, Nat.zero_le _, nofun⟩, nofun, nofun, ?_⟩
  cases accepted <;> simp [fresh]

/-- A peer whose FINs all give one final size, and whose data does not go beyond
it: on a stream that is not reset, the end is read once that many bytes have been
read, and from then on. -/
theorem eof_stable (id remoteID : UInt32) (fc : StreamFlowController) (accepted : Bool)
    {ops : List Op} {size : UInt64} (consistent : ∀ op ∈ ops, op.Consistent size)
    (live : Runs.Along Stream.step (fun s _ => s.state ≠ .reset)
      (fresh id remoteID fc accepted) ops)
    (eof : .eof ∈ (fresh id remoteID fc accepted).readResults ops) :
    let results := (fresh id remoteID fc accepted).readResults ops
    firstFin ops = some size ∧
      (∀ result ∈ results.dropWhile (· ≠ .eof), result = .eof) ∧
      (results.map fun result => result.returned.length).sum = size.toNat := by
  have ends := ends_fresh size.toNat id remoteID fc accepted
  obtain ⟨stable, sum⟩ := ends.readResults consistent live eof
  rw [Nat.zero_add] at sum
  exact ⟨(ends.announced consistent eof).resolve_left nofun, stable, sum⟩

/-- Two bytes, the FIN first, read to the end and once more. -/
theorem eof_stable_finFirst :
    let ops : List Op := [.deliverFin 2, .deliverData 1 [2], .deliverData 0 [1], .read 9 false,
      .read 9 false, .deliverData 0 [1, 2], .read 9 false]
    let results := (fresh 2 1 (newStreamFlowController 9 9) true).readResults ops
    firstFin ops = some 2 ∧ (∀ result ∈ results.dropWhile (· ≠ .eof), result = .eof) ∧
      (results.map fun result => result.returned.length).sum = 2 := by
  intro ops results
  exact eof_stable 2 1 (newStreamFlowController 9 9) true (by decide) (by decide +kernel)
    (by decide +kernel)

/-- Data beyond the end is read after the end, and a second FIN moves it: the
first stream returns 2 bytes though its FIN said 1, the second ends at the size
its later FIN gives. -/
theorem data_after_eof :
    Runs.Along Stream.step (fun s _ => s.state ≠ .reset)
        (fresh 2 1 (newStreamFlowController 9 9) true)
        [.deliverData 0 [1], .deliverFin 1, .read 9 false, .read 9 false, .deliverData 1 [2],
          .read 9 false] ∧
      (fresh 2 1 (newStreamFlowController 9 9) true).readResults
        [.deliverData 0 [1], .deliverFin 1, .read 9 false, .read 9 false, .deliverData 1 [2],
          .read 9 false] = [.data [1], .eof, .data [2]] ∧
      Runs.Along Stream.step (fun s _ => s.state ≠ .reset)
        (fresh 2 1 (newStreamFlowController 9 9) true)
        [.deliverFin 3, .deliverData 0 [1], .deliverFin 1, .read 9 false, .read 9 false] ∧
      firstFin [.deliverFin 3, .deliverData 0 [1], .deliverFin 1, .read 9 false, .read 9 false] =
        some 3 ∧
      (fresh 2 1 (newStreamFlowController 9 9) true).readResults
        [.deliverFin 3, .deliverData 0 [1], .deliverFin 1, .read 9 false, .read 9 false] =
        [.data [1], .eof] := by
  decide +kernel

/-- Results of reads that hand over `left` and then the end. -/
def ReadsOut : List UInt8 → List ReadResult → Prop
  | _, [] => True
  | left, .data bytes :: rest => left ≠ [] ∧ bytes <+: left ∧ ReadsOut (left.drop bytes.length) rest
  | left, .eof :: rest => left = [] ∧ ReadsOut left rest
  | _, _ :: _ => False

/-- A RESET_STREAM, the connection closing, or a read. -/
def Op.Late : Op → Prop
  | .deliverReset _ | .read _ _ => True
  | _ => False

/-- The read does not come after both the last byte and a reset. -/
def InTime (s : Stream) : Op → Prop
  | .read _ _ => s.recvBuf = [] → s.state ≠ .reset
  | _ => True

instance (s : Stream) (op : Op) : Decidable (s.InTime op) := by
  unfold InTime
  split <;> infer_instance

/-- A stream received completely reads as complete, whatever resets come, exactly
if no read finds its buffer empty after one of them. -/
theorem complete_reads_out {ops : List Op} (finished : s.finReceived = true)
    (late : ∀ op ∈ ops, op.Late) :
    ReadsOut s.recvBuf (s.readResults ops) ↔ Runs.Along Stream.step InTime s ops := by
  induction ops generalizing s with
  | nil => exact iff_of_true trivial trivial
  | cons op rest ih =>
    obtain ⟨now, later⟩ := List.forall_mem_cons.mp late
    have along : Runs.Along Stream.step InTime s (op :: rest) ↔
        s.InTime op ∧ Runs.Along Stream.step InTime (s.apply op) rest := by
      simp [Runs.Along, Stream.step]
    rw [along]
    cases op with
    | deliverReset code =>
      have next := ih (s := s.deliverReset code) finished later
      exact next.trans (and_iff_right trivial).symm
    | read size expired =>
      have reads := s.reads_read size expired
      rw [Stream.readResults, Stream.apply]
      generalize s.read size expired = out at reads ⊢
      cases reads with
      | aborted empty reset => exact iff_of_false False.elim fun both => both.1 empty reset
      | ended empty live =>
        have next := ih finished later
        exact and_congr (iff_of_true empty fun _ => live) next
      | waits _ _ unfinished => cases finished.symm.trans unfinished
      | takes full fc frames =>
        have next := ih (s := { s with
          recvBuf := s.recvBuf.drop (s.recvBuf.take size).length
          bytesRead := s.bytesRead + (s.recvBuf.take size).length
          streamFC := fc }) finished later
        rw [ReadsOut, next]
        exact ⟨fun all => ⟨fun empty => absurd empty full, all.2.2⟩,
          fun all => ⟨full, List.take_prefix _ _, all.2⟩⟩
    | write | close | reset | deliverData | deliverFin | windowUpdate => exact now.elim

/-- One byte and its FIN, then the connection closes after the byte was read and
before the end was. -/
theorem reset_hides_eof :
    ∃ s, Runs.run Stream.step (fresh 2 1 (newStreamFlowController 9 9) true)
        [.deliverData 0 [1], .deliverFin 1] = some s ∧ s.finReceived = true ∧
      s.recvBuf = [1] ∧
      s.readResults [.read 9 false, .deliverReset 0, .read 9 false] = [.data [1], .streamReset] ∧
      ¬ ReadsOut s.recvBuf (s.readResults [.read 9 false, .deliverReset 0, .read 9 false]) := by
  refine ⟨_, rfl, rfl, rfl, rfl, fun out => ?_⟩
  exact out.2.2

/-- The same stream, read to the end before the connection closes. -/
theorem complete_reads_out_before_close :
    ∃ s, Runs.run Stream.step (fresh 2 1 (newStreamFlowController 9 9) true)
        [.deliverData 0 [1], .deliverFin 1] = some s ∧ s.finReceived = true ∧
      ReadsOut s.recvBuf (s.readResults [.read 9 false, .read 9 false, .deliverReset 0]) := by
  refine ⟨_, rfl, rfl, (complete_reads_out rfl ?_).mpr (by decide +kernel)⟩
  simp [Op.Late]

end Stream

namespace Connection

variable {F : Type} [Float64 F] {c : Connection F} {s : Stream} {id : UInt32}

omit [Float64 F] in
theorem lookup_foldl_deliverReset (code : UInt32) {streams : List Stream}
    (unique : ∀ t ∈ streams, t.id = id → t = s)
    (present : c.streams.lookup id = some (s.deliverReset code) ∨ s.id = id ∧ s ∈ streams) :
    (streams.foldl (fun c s => c.setStream (s.deliverReset code)) c).streams.lookup id =
      some (s.deliverReset code) := by
  induction streams generalizing c with
  | nil => exact present.resolve_right fun both => List.not_mem_nil both.2
  | cons t rest ih =>
    refine ih (fun u member => unique u (List.mem_cons_of_mem _ member)) ?_
    by_cases same : t.id = id
    · obtain rfl := unique t List.mem_cons_self same
      rw [← same]
      exact .inl (AList.lookup_insert _)
    · refine present.imp (fun reset => ?_) fun both => ⟨both.1, ?_⟩
      · exact (AList.lookup_insert_ne (Ne.symm same)).trans reset
      · refine (List.mem_cons.mp both.2).resolve_left ?_
        rintro rfl
        exact same both.1

omit [Float64 F] in
/-- A connection that closes, by either side, delivers a reset to each stream. -/
theorem lookup_closeInternal (keyed : c.Keyed) (opened : c.state ≠ .closed)
    (found : c.streams.lookup id = some s) (now : Time) (code : UInt32) (reason : List UInt8)
    (announce : Bool) :
    (c.closeInternal now code reason announce).streams.lookup id = some (s.deliverReset code) := by
  rw [closeInternal_eq, if_neg opened]
  have kept : (c.announced now code reason announce).streams = c.streams :=
    congrArg Endpoint.streams (sends_announced now code reason announce).endpoint
  show ((c.announced now code reason announce).resetAll code).streams.lookup id = _
  unfold resetAll
  rw [kept]
  have member := Tables.mem_entries_iff.mpr found
  refine lookup_foldl_deliverReset code (fun t inside same => ?_)
    (.inr ⟨keyed _ member, List.mem_map_of_mem member⟩)
  obtain ⟨e, entry, rfl⟩ := List.mem_map.mp inside
  have own : c.streams.lookup e.1 = some e.2 := Tables.lookup_of_mem e entry
  rw [← keyed e entry, same, found] at own
  exact (Option.some.inj own).symm

end Connection

end Udx

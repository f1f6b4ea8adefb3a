import Udx.Lib.Slices
import Udx.StreamHistory

set_option autoImplicit false

namespace Udx

open Slices

namespace Stream

/-- The receive side against the sender's bytes: what was read and what waits
to be read is the front of them, every early chunk is where it belongs, and the
end is known only from a FIN. -/
structure Reassembles (bytes : List UInt8) (s : Stream) (returned : List UInt8) : Prop where
  front : returned ++ s.recvBuf = bytes.take s.recvOffset
  inside : s.recvOffset ≤ bytes.length
  early : ∀ offset chunk, s.recvOOO.lookup offset = some chunk → Slice bytes offset chunk
  final : s.finSeen = true → s.finalSize = bytes.length
  complete : s.finReceived = true → s.finSeen = true ∧ s.recvOffset = bytes.length
  notClosed : s.state ≠ .closed ∧ s.state ≠ .halfClosedLocal

variable {bytes returned data : List UInt8} {s : Stream} {offset : Nat}

theorem Reassembles.release (small : bytes.length < 2 ^ 64)
    (holds : Reassembles bytes s returned) (fuel : Nat) :
    Reassembles bytes (release fuel s) returned := by
  induction fuel generalizing s with
  | zero => exact holds
  | succ fuel ih =>
    rw [Stream.release]
    split
    · exact holds
    · rename_i chunk found
      have slice := holds.early _ _ found
      have within := slice.within
      have stop : (s.recvOffset + chunk.length) % 2 ^ 64 = s.recvOffset + chunk.length :=
        Nat.mod_eq_of_lt (by omega)
      refine ih ⟨?_, ?_, ?_, holds.final, ?_, holds.notClosed⟩
      · dsimp only
        rw [← List.append_assoc, holds.front, slice.take_append, stop]
      · exact stop.le.trans within
      · intro k held lookup
        by_cases same : k = s.recvOffset
        · rw [same, AList.lookup_erase] at lookup
          cases lookup
        · exact holds.early k held (by rwa [AList.lookup_erase_ne same] at lookup)
      · intro done
        obtain ⟨seen, all⟩ := holds.complete done
        exact ⟨seen, by dsimp only; omega⟩

theorem Reassembles.placeLocked (small : bytes.length < 2 ^ 64)
    (holds : Reassembles bytes s returned) (slice : Slice bytes offset data) :
    Reassembles bytes (s.placeLocked offset data).1 returned := by
  have within := slice.within
  have stop : (offset + data.length) % 2 ^ 64 = offset + data.length :=
    Nat.mod_eq_of_lt (by omega)
  have append : ∀ rest, Slice bytes s.recvOffset rest →
    s.recvOffset + rest.length = offset + data.length →
      Reassembles bytes { s with
        recvBuf := s.recvBuf ++ rest
        recvOffset := (offset + data.length) % 2 ^ 64 } returned := by
    intro rest tail ends
    refine ⟨?_, stop.le.trans within, holds.early, holds.final, ?_, holds.notClosed⟩
    · dsimp only
      rw [← List.append_assoc, holds.front, tail.take_append, stop, ends]
    · intro done
      obtain ⟨seen, all⟩ := holds.complete done
      exact ⟨seen, by dsimp only; omega⟩
  have placed := s.placed_placeLocked offset data
  generalize s.placeLocked offset data = out at placed ⊢
  cases placed with
  | known | held => exact holds
  | excess =>
    exact ⟨holds.front, holds.inside, holds.early, holds.final, holds.complete, holds.notClosed⟩
  | early =>
    refine ⟨holds.front, holds.inside, ?_, holds.final, holds.complete, holds.notClosed⟩
    intro k chunk lookup
    by_cases same : k = offset
    · rw [same, AList.lookup_insert, Option.some.injEq] at lookup
      rw [same, ← lookup]
      exact slice
    · exact holds.early k chunk (by rwa [AList.lookup_insert_ne same] at lookup)
  | next beyond begun =>
    -- The new tail starts where the delivered bytes end.
    rw [stop] at beyond
    have tail := slice.drop (show s.recvOffset - offset ≤ data.length by omega)
    rw [show offset + (s.recvOffset - offset) = s.recvOffset by omega] at tail
    refine Reassembles.release small (append _ tail ?_) _
    rw [List.length_drop]
    omega

theorem Reassembles.finishLocked (holds : Reassembles bytes s returned) :
    Reassembles bytes s.finishLocked returned := by
  unfold Stream.finishLocked
  split
  · exact holds
  · rename_i ready
    simp only [Bool.or_eq_true, Bool.not_eq_true', decide_eq_true_eq, not_or, not_lt,
      Bool.not_eq_false] at ready
    obtain ⟨⟨seen, -⟩, reached⟩ := ready
    have inside := holds.inside
    have final := holds.final seen
    refine ⟨holds.front, inside, holds.early, holds.final, fun _ => ⟨seen, ?_⟩, ?_⟩
    · dsimp only
      omega
    · simp [holds.notClosed.2]

theorem Reassembles.deliverData (small : bytes.length < 2 ^ 64)
    (holds : Reassembles bytes s returned) (slice : Slice bytes offset data) :
    Reassembles bytes (s.deliverData offset data).1 returned := by
  have placed := holds.placeLocked small slice
  unfold Stream.deliverData
  dsimp only
  split
  · unfold Stream.reset
    split
    · exact placed
    · exact ⟨placed.front, placed.inside, placed.early, placed.final, placed.complete, by simp⟩
  · split
    · apply Reassembles.finishLocked
      exact ⟨placed.front, placed.inside, placed.early, placed.final, placed.complete,
        placed.notClosed⟩
    · exact placed

theorem Reassembles.deliverFin (holds : Reassembles bytes s returned) :
    Reassembles bytes (s.deliverFin bytes.length) returned := by
  apply Reassembles.finishLocked
  exact ⟨holds.front, holds.inside, holds.early, fun _ => rfl,
    fun done => ⟨rfl, (holds.complete done).2⟩, holds.notClosed⟩

theorem Reassembles.read (holds : Reassembles bytes s returned) (size : Nat) (expired : Bool) :
    Reassembles bytes (s.read size expired).1
      (returned ++ ReadResult.returned (s.read size expired).2.1) := by
  by_cases empty : s.recvBuf.length = 0
  · have unchanged : (s.read size expired).1 = s ∧
        ReadResult.returned (s.read size expired).2.1 = [] := by
      simp only [Stream.read, empty, ↓reduceIte]
      repeat' split
      all_goals exact ⟨rfl, rfl⟩
    rw [unchanged.1, unchanged.2, List.append_nil]
    exact holds
  · have front : (returned ++ s.recvBuf.take size) ++ s.recvBuf.drop (s.recvBuf.take size).length =
        bytes.take s.recvOffset := by
      rw [← holds.front, List.append_assoc, List.length_take, List.take_eq_take_min,
        List.take_append_drop]
    simp only [Stream.read, empty, ↓reduceIte]
    split
    · exact ⟨front, holds.inside, holds.early, holds.final, holds.complete, holds.notClosed⟩
    · exact ⟨front, holds.inside, holds.early, holds.final, holds.complete, holds.notClosed⟩

/-- The end of the stream is reported only when all of it has been read. -/
theorem Reassembles.eof (holds : Reassembles bytes s returned) {size : Nat} {expired : Bool}
    (ended : (s.read size expired).2.1 = .eof) : s.finSeen = true ∧ returned = bytes := by
  have front := holds.front
  unfold Stream.read at ended
  split at ended
  · rename_i empty
    split at ended
    · cases ended
    · split at ended
      · rename_i done
        obtain ⟨seen, all⟩ := holds.complete done
        rw [List.eq_nil_of_length_eq_zero empty, List.append_nil, all, List.take_length] at front
        exact ⟨seen, front⟩
      · split at ended
        · rename_i closed
          exact absurd closed holds.notClosed.1
        · split at ended <;> cases ended
  · dsimp only at ended
    split at ended <;> cases ended

/-- What reaches the stream are chunks and ends from the peer, none of which says
anything false about its bytes, and the application's reads. -/
def Op.Honest (bytes : List UInt8) : Op → Prop
  | .deliverData offset data => Slice bytes offset.toNat data
  | .deliverFin finalSize => finalSize.toNat = bytes.length
  | .read _ _ => True
  | _ => False

theorem reassembles_after {h : Lived} {op : Op} (small : bytes.length < 2 ^ 64)
    (honest : op.Honest bytes) (holds : Reassembles bytes h.stream h.returned)
    (known : h.stream.finSeen = h.ended) :
    Reassembles bytes (h.after op).stream (h.after op).returned ∧
      (h.after op).stream.finSeen = (h.after op).ended := by
  cases op with
  | deliverData offset data =>
    refine ⟨?_, (deliverData_finSeen _ _ _).trans (known.trans (Bool.or_false _).symm)⟩
    show Reassembles bytes _ (h.returned ++ [])
    rw [List.append_nil]
    exact holds.deliverData small honest
  | deliverFin finalSize =>
    have final : finalSize.toNat = bytes.length := honest
    refine ⟨?_, (finishLocked_finSeen _).trans (Bool.or_true _).symm⟩
    show Reassembles bytes (h.stream.deliverFin finalSize.toNat) (h.returned ++ [])
    rw [List.append_nil, final]
    exact holds.deliverFin
  | read size expired =>
    exact ⟨holds.read size expired,
      (read_finSeen _ _ _).trans (known.trans (Bool.or_false _).symm)⟩
  | write | close | reset | deliverReset | windowUpdate => exact honest.elim

theorem reassembles_run {ops : List Op} (h : Lived) (small : bytes.length < 2 ^ 64)
    (honest : ∀ op ∈ ops, op.Honest bytes) (holds : Reassembles bytes h.stream h.returned)
    (known : h.stream.finSeen = h.ended) :
    Reassembles bytes (h.run ops).stream (h.run ops).returned ∧
      (h.run ops).stream.finSeen = (h.run ops).ended := by
  induction ops generalizing h with
  | nil => exact ⟨holds, known⟩
  | cons op rest ih =>
    have next := reassembles_after small (honest op List.mem_cons_self) holds known
    exact ih _ (fun e later => honest e (List.mem_cons_of_mem _ later)) next.1 next.2

theorem reassembles_fresh (id remoteID : UInt32) (fc : StreamFlowController) (accepted : Bool) :
    Reassembles bytes (fresh id remoteID fc accepted) [] := by
  refine ⟨by simp [fresh, newStream], Nat.zero_le _, ?_, by simp [fresh, newStream],
    by simp [fresh, newStream], ?_⟩
  · intro offset chunk lookup
    cases lookup
  · cases accepted <;> simp [fresh]

/-- Reads return the sender's bytes, in order, once, whatever the order,
duplication and overlap of their arrival, and the end only after the last of
them. -/
theorem read_returns_sent_bytes (id remoteID : UInt32) (fc : StreamFlowController)
    (accepted : Bool) (small : bytes.length < 2 ^ 64) (ops : List Op)
    (honest : ∀ op ∈ ops, op.Honest bytes) :
    let h := Lived.run { stream := fresh id remoteID fc accepted } ops
    h.returned <+: bytes ∧
      h.stream.recvOffset = h.returned.length + h.stream.recvBuf.length ∧
      ∀ size expired, (h.stream.read size expired).2.1 = .eof →
        h.ended = true ∧ h.returned = bytes := by
  intro h
  obtain ⟨holds, known⟩ := reassembles_run { stream := fresh id remoteID fc accepted }
    small honest (reassembles_fresh id remoteID fc accepted) rfl
  refine ⟨?_, ?_, ?_⟩
  · exact (List.prefix_append _ _).trans (holds.front ▸ List.take_prefix _ _)
  · have inside := holds.inside
    have := congrArg List.length holds.front
    rw [List.length_append, List.length_take, Nat.min_eq_left inside] at this
    exact this.symm
  · intro size expired ended
    obtain ⟨seen, all⟩ := holds.eof ended
    exact ⟨known.symm.trans seen, all⟩

/-- Three bytes whose tail and end overtake the first, read in two parts. -/
theorem read_returns_sent_bytes_overtaken :
    let ops : List Op :=
      [.deliverData 1 [2, 3], .deliverFin 3, .deliverData 0 [1], .read 2 false, .read 5 false]
    let h := Lived.run { stream := fresh 1 0 (newStreamFlowController 65536 65536) true } ops
    (∀ op ∈ ops, op.Honest [1, 2, 3]) ∧ (h.stream.read 1 false).2.1 = .eof ∧
      h.returned = [1, 2, 3] := by
  intro ops h
  have honest : ∀ op ∈ ops, op.Honest [1, 2, 3] := by
    simp only [ops, List.forall_mem_cons, List.not_mem_nil, false_implies, implies_true,
      Op.Honest, and_true]
    exact ⟨⟨by decide, rfl⟩, rfl, ⟨by decide, rfl⟩⟩
  have ended : (h.stream.read 1 false).2.1 = .eof := by decide
  exact ⟨honest, ended,
    ((read_returns_sent_bytes 1 0 _ true (by decide) ops honest).2.2 1 false ended).2⟩

end Stream

end Udx

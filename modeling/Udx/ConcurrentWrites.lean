import Udx.WriteCalls

set_option autoImplicit false

namespace Udx

open Spans

/- The application closes the stream while `Write` calls are under way on it. A close
books nothing; its FIN goes to the connection with the lock released. -/

/-- The calls on a stream, the FINs on their way to the connection and those handed
over. -/
structure Writing extends WriteCalls where
  fins : List Frame := []
  announced : List Frame := []

def Frame.dataLen : Frame → Nat
  | .stream f => f.data.length
  | _ => 0

namespace Writing

inductive Step where
  | call (step : WriteCalls.Step)
  | close
  | sendFin (i : Nat)

def step (w : Writing) : Step → Option Writing
  | .call step => (w.toWriteCalls.step step).map fun calls => { w with toWriteCalls := calls }
  | .close =>
    some { w with stream := w.stream.close.1, fins := w.fins ++ w.stream.close.2 }
  | .sendFin i =>
    match w.fins[i]? with
    | some fin => some { w with fins := w.fins.eraseIdx i, announced := fin :: w.announced }
    | none => none

/-- A batch is booked only while the stream is not closed, and the stream's
offsets stay within the 63 bits the source has for them. -/
def BooksOpen (w : Writing) : Step → Prop
  | .call (.commit _ granted) =>
    w.stream.writeError ≠ some .writeAfterClose ∧ w.stream.bytesWritten + granted < 2 ^ 63
  | _ => True

instance (w : Writing) : (i : Step) → Decidable (w.BooksOpen i)
  | .call (.commit _ granted) => inferInstanceAs (Decidable
    (w.stream.writeError ≠ some .writeAfterClose ∧ w.stream.bytesWritten + granted < 2 ^ 63))
  | .call (.write ..) | .call (.resume ..) | .call (.expire _) | .call (.refuse _)
  | .call (.send _) | .call (.updateMaxStreamData _) | .call (.reset _) | .call (.deliverReset _)
  | .close | .sendFin _ => inferInstanceAs (Decidable True)

def sent (w : Writing) : List Frame := w.emitted.map (fun e => .stream e.frame) ++ w.announced

def sentBytes (w : Writing) : Nat := (w.sent.map Frame.dataLen).sum

/-- Everything handed over is below the announced end, which is announced the
same every time and is all there is. -/
structure EndsAtFin (w : Writing) : Prop where
  below : ∀ f fin, .stream f ∈ w.sent → .stream fin ∈ w.sent → f.isFin = false →
    fin.isFin = true → f.offset.toNat + f.data.length ≤ fin.offset.toNat
  same : ∀ fin fin', .stream fin ∈ w.sent → .stream fin' ∈ w.sent → fin.isFin = true →
    fin'.isFin = true → fin.offset = fin'.offset
  total : w.NoneSending → ∀ fin, .stream fin ∈ w.sent → fin.isFin = true →
    fin.offset.toNat = w.sentBytes

/-- A FIN is for everything that is booked, and nothing more can be. -/
structure Announces (w : Writing) : Prop where
  booked : w.Booked
  fins : ∀ f ∈ w.fins ++ w.announced, w.stream.writeError ≠ none ∧
    f = .stream ⟨true, false, UInt64.ofNat w.stream.bytesWritten, []⟩

variable {w w' : Writing}

theorem writeError_close (s : Stream) : s.close.1.writeError ≠ none := by
  unfold Stream.close
  split
  · rename_i ended
    rcases ended with state | state <;> simp [Stream.writeError, state]
  · simp only [Stream.writeError]
    split <;> simp

theorem Announces.call {i : WriteCalls.Step} {calls : WriteCalls} (announces : w.Announces)
    (open' : w.BooksOpen (.call i)) (stepped : WriteCalls.Stepped w.toWriteCalls i calls) :
    Announces { w with toWriteCalls := calls } := by
  obtain ⟨booked, fins⟩ := announces
  cases stepped with
  | write arg mtu => exact ⟨booked.write mtu arg, fins⟩
  | turn found unbooked turned => exact ⟨booked.turn found unbooked turned, fins⟩
  | send found => exact ⟨booked.send found, fins⟩
  | commit found range committed =>
    obtain ⟨running, small⟩ := open'
    obtain ⟨live, within, -, after⟩ := w.stream.writeCommit_eq_some committed
    refine ⟨booked.commit found range committed (by rw [after]; dsimp only; omega), ?_⟩
    -- A stream with a FIN is closed or reset, and neither books a batch.
    have unclosed : w.stream.writeError = none := by
      unfold Stream.writeError at running ⊢
      rw [if_neg live] at running ⊢
      split at running
      · exact absurd rfl running
      · rename_i unclosed
        exact if_neg unclosed
    exact fun f member => absurd unclosed (fins f member).1
  | beneath under =>
    have same := under.bytesWritten
    have stepped : WriteCalls.Stepped w.toWriteCalls i _ := .beneath under
    refine ⟨booked.step stepped (same.trans_lt booked.fits), fun f member => ?_⟩
    obtain ⟨error, shape⟩ := fins f member
    exact ⟨under.writeError error, by rw [shape, same]⟩

theorem Announces.step {i : Step} (announces : w.Announces) (open' : w.BooksOpen i)
    (taken : w.step i = some w') : w'.Announces := by
  cases i with
  | call i =>
    obtain ⟨calls, moved, rfl⟩ := Option.map_eq_some_iff.mp taken
    exact announces.call open' (WriteCalls.stepped_of_step moved)
  | close =>
    cases taken
    obtain ⟨booked, fins⟩ := announces
    have error := writeError_close w.stream
    have same : w.stream.close.1.bytesWritten = w.stream.bytesWritten := by
      unfold Stream.close
      split <;> rfl
    have sends : ∀ f ∈ w.stream.close.2,
        f = .stream ⟨true, false, UInt64.ofNat w.stream.bytesWritten, []⟩ := by
      unfold Stream.close
      split
      · exact List.forall_mem_nil _
      · exact List.forall_mem_singleton.mpr rfl
    refine ⟨⟨same ▸ booked.fits, same ▸ booked.length, same ▸ booked.once, booked.emitted,
      booked.numbered, booked.calls⟩, fun f member => ⟨writeError_close w.stream, ?_⟩⟩
    dsimp only at member ⊢
    rw [same]
    rcases List.mem_append.mp member with waiting | announced
    · rcases List.mem_append.mp waiting with old | new
      · exact (fins f (List.mem_append_left _ old)).2
      · exact sends f new
    · exact (fins f (List.mem_append_right _ announced)).2
  | sendFin i =>
    simp only [Writing.step] at taken
    split at taken
    · rename_i fin found
      cases taken
      obtain ⟨booked, fins⟩ := announces
      refine ⟨booked, fun f member => fins f ?_⟩
      rcases List.mem_append.mp member with waiting | announced
      · exact List.mem_append_left _ (List.mem_of_mem_eraseIdx waiting)
      · rcases List.mem_cons.mp announced with rfl | old
        · exact List.mem_append_left _ (List.mem_of_getElem? found)
        · exact List.mem_append_right _ old
    · cases taken

theorem mem_sent {f : StreamFrame} (member : .stream f ∈ w.sent) :
    (∃ e ∈ w.emitted, e.frame = f) ∨ .stream f ∈ w.announced := by
  rcases List.mem_append.mp member with data | fin
  · obtain ⟨e, emitted, same⟩ := List.mem_map.mp data
    exact .inl ⟨e, emitted, Frame.stream.inj same⟩
  · exact .inr fin

theorem Announces.offset {fin : StreamFrame} (announces : w.Announces)
    (member : .stream fin ∈ w.sent) (isFin : fin.isFin = true) :
    fin.offset = UInt64.ofNat w.stream.bytesWritten := by
  rcases mem_sent member with ⟨e, emitted, rfl⟩ | announced
  · exact absurd isFin (by rw [(announces.booked.emitted e emitted).plain]; exact Bool.false_ne_true)
  · rw [Frame.stream.inj (announces.fins _ (List.mem_append_right _ announced)).2]

/-- Once no batch is on its way, all that is booked has been handed over. -/
theorem Announces.sentBytes_eq (announces : w.Announces) (none : w.NoneSending) :
    w.sentBytes = w.stream.bytesWritten := by
  have fins : (w.announced.map Frame.dataLen).sum = 0 := by
    apply List.sum_eq_zero
    intro n member
    obtain ⟨f, announced, rfl⟩ := List.mem_map.mp member
    rw [(announces.fins f (List.mem_append_right _ announced)).2]
    rfl
  have once (x : Nat) : (w.emitted.map fun e => e.frame.span).countP (fun s => x ∈ s) =
      if x < w.stream.bytesWritten then 1 else 0 := by
    rw [List.countP_map]
    exact announces.booked.partition none x
  have total := Span.sum_length_eq once
  rw [List.map_map] at total
  rw [sentBytes, sent, List.map_append, List.sum_append, fins, Nat.add_zero, List.map_map, ← total]
  congr 1
  refine List.map_congr_left fun e _ => ?_
  exact (Nat.add_sub_cancel_left _ _).symm

theorem Announces.ends (announces : w.Announces) : w.EndsAtFin := by
  have final : (UInt64.ofNat w.stream.bytesWritten).toNat = w.stream.bytesWritten := by
    have := announces.booked.fits
    exact UInt64.toNat_ofNat_of_lt' (by show _ < 2 ^ 64; omega)
  refine ⟨fun f fin data member plain isFin => ?_, fun fin fin' member member' isFin isFin' => ?_,
    fun none fin member isFin => ?_⟩
  · rw [announces.offset member isFin, final]
    rcases mem_sent data with ⟨e, emitted, rfl⟩ | announced
    · have within := (announces.booked.emitted e emitted).wrote.within
      rwa [List.length_map, announces.booked.length] at within
    · rw [Frame.stream.inj (announces.fins _ (List.mem_append_right _ announced)).2] at plain
      cases plain
  · rw [announces.offset member isFin, announces.offset member' isFin']
  · rw [announces.offset member isFin, final, announces.sentBytes_eq none]

/-- However the calls interleave, nothing goes out past the announced end of the
stream, if no batch is booked once the stream is closed. -/
theorem ends_of_booksOpen {s : Stream} (fresh : s.bytesWritten = 0) {steps : List Step}
    {w : Writing}
    (along : Runs.Along Writing.step BooksOpen { stream := s } steps)
    (reached : Runs.run Writing.step { stream := s } steps = some w) : w.EndsAtFin := by
  have booked : WriteCalls.Booked { stream := s } :=
    ⟨by dsimp only; omega, fresh.symm, fun x => by simp [fresh], nofun, nofun, nofun⟩
  have start : Announces { stream := s } := ⟨booked, nofun⟩
  exact (Runs.invariant Announces (fun _ _ _ announces => announces.step) start along reached).ends

/-- A writer waits for congestion credit while the application closes the
stream; the credit comes after the FIN. -/
def closeWhileWaiting : List Step :=
  [.call (.write [7] newMTUDiscovery), .close, .sendFin 0, .call (.commit 0 1), .call (.send 0)]

/-- The byte at offset 0 goes out although the stream was announced to end
there. -/
theorem closeWhileWaiting_overruns :
    ∃ w, Runs.run Writing.step { stream := newStream 1 0 initialFC } closeWhileWaiting = some w ∧
      ¬ w.EndsAtFin := by
  refine ⟨_, rfl, fun ends => ?_⟩
  have below := ends.below ⟨false, false, 0, [7]⟩ ⟨true, false, 0, []⟩
    (by decide) (by decide) rfl rfl
  exact absurd below (by decide)

def closeAfterwards : List Step :=
  [.call (.write [7, 8] newMTUDiscovery), .call (.write [9] newMTUDiscovery),
    .call (.commit 0 2), .call (.commit 1 1), .call (.send 1), .close, .call (.send 0), .sendFin 0,
    .call (.resume 0 newMTUDiscovery), .close, .sendFin 0]

theorem ends_of_booksOpen_afterwards :
    ∃ w, Runs.run Writing.step { stream := newStream 1 0 initialFC } closeAfterwards = some w ∧
      w.sent.length = 4 ∧ w.EndsAtFin := by
  have along : Runs.Along Writing.step BooksOpen { stream := newStream 1 0 initialFC } closeAfterwards := by
    decide
  exact ⟨_, rfl, rfl, ends_of_booksOpen rfl along rfl⟩

end Writing

end Udx

import Udx.StreamHistory

set_option autoImplicit false

namespace Udx

namespace Stream

/-- The delivered bytes reach the end of the stream, which the operation gives or an
earlier one gave, and the peer's side was not finished before. -/
def Finishes (s : Stream) : Op → Prop
  | .deliverFin finalSize => s.finReceived = false ∧ finalSize.toNat ≤ s.recvOffset
  | .deliverData offset data =>
    let out := s.placeLocked offset.toNat data
    s.finReceived = false ∧ s.finSeen = true ∧ s.finalSize ≤ out.1.recvOffset ∧ 0 < out.2 ∧
      out.1.flowControlViolation = false
  | _ => False

instance (s : Stream) : (op : Op) → Decidable (s.Finishes op)
  | .deliverFin _ => inferInstanceAs (Decidable (_ ∧ _))
  | .deliverData .. => inferInstanceAs (Decidable (_ ∧ _ ∧ _ ∧ _ ∧ _))
  | .write .. | .close | .reset _ | .deliverReset _ | .windowUpdate _ | .read .. =>
    inferInstanceAs (Decidable False)

/-- The operation does not finish the peer's side of a stream that is already reset. -/
def Lived.Unfinishing (h : Lived) (op : Op) : Prop :=
  h.stream.state = .reset → ¬ h.stream.Finishes op

instance (h : Lived) (op : Op) : Decidable (h.Unfinishing op) :=
  inferInstanceAs (Decidable (_ → _))

end Stream

/-- How far along its lifecycle a stream in this state is. -/
def StreamState.rank : StreamState → Nat
  | .idle => 0
  | .opened => 1
  | .halfClosedLocal | .halfClosedRemote => 2
  | .closed => 3
  | .reset => 4

/-- `t` is `s` or comes after it: a half-closed stream can close but not become
half closed the other way, and nothing comes after a reset. -/
def StreamState.Before (s t : StreamState) : Prop := s = t ∨ s.rank < t.rank

theorem StreamState.Before.trans {s t u : StreamState} (first : s.Before t) (second : t.Before u) :
    s.Before u := by
  rcases first with rfl | before
  · exact second
  · rcases second with rfl | after
    · exact .inr before
    · exact .inr (Nat.lt_trans before after)

theorem StreamState.Before.of_reset {t : StreamState} (after : StreamState.reset.Before t) :
    t = .reset := by
  rcases after with same | before
  · exact same.symm
  · cases t <;> simp [rank] at before

namespace Stream

variable {s t : Stream}

/-- A chunk of which nothing was accepted moves the delivered bytes no further. -/
theorem placeLocked_rejected {offset : Nat} {data : List UInt8}
    (rejected : (s.placeLocked offset data).2 = 0) :
    (s.placeLocked offset data).1.recvOffset = s.recvOffset := by
  have placed := s.placed_placeLocked offset data
  generalize s.placeLocked offset data = out at placed rejected ⊢
  cases placed with
  | known | held | excess | early => rfl
  | next beyond begun =>
    have empty : data.length - (s.recvOffset - offset) = 0 := rejected
    have := Nat.mod_le (offset + data.length) (2 ^ 64)
    omega

theorem finishLocked_recvOffset : s.finishLocked.recvOffset = s.recvOffset := by
  unfold finishLocked
  split <;> rfl

theorem finishLocked_complete : s.finishLocked.complete = s.complete := by
  simp only [complete, finishLocked_finSeen, finishLocked_finalSize, finishLocked_recvOffset]

/-- The stream finishes exactly when it is complete. -/
theorem finishLocked_finReceived :
    s.finishLocked.finReceived = (s.finReceived || s.complete) := by
  unfold finishLocked complete
  split
  · rename_i unfinished
    simp only [Bool.or_eq_true, Bool.not_eq_true', decide_eq_true_eq] at unfinished
    rcases unfinished with (unseen | done) | short
    · simp [unseen]
    · simp [done]
    · simp [Nat.not_le.mpr short]
  · rename_i ready
    simp only [Bool.or_eq_true, Bool.not_eq_true', decide_eq_true_eq, not_or, not_lt,
      Bool.not_eq_false] at ready
    simp [ready.1.1, ready.2]

/-- How far the peer's side is. -/
def progress (s : Stream) : Bool × Bool := (s.finReceived, s.complete)

/-- What an operation can do to the lifecycle of a stream. -/
inductive Passage (s t : Stream) : Op → Prop
  | quiet {op : Op} (state : t.state = s.state) (progress : t.progress = s.progress)
    (legal : t.flowControlViolation = true → s.flowControlViolation = true)
    (ended : op.isClose = true → s.state = .closed ∨ s.state = .reset) : Passage s t op
  | opens {op : Op} (was : s.state = .idle) (state : t.state = .opened)
    (progress : t.progress = s.progress)
    (legal : t.flowControlViolation = true → s.flowControlViolation = true)
    (other : op.isClose = false) : Passage s t op
  | closes (live : ¬ (s.state = .closed ∨ s.state = .reset))
    (state : t.state = if s.state = .halfClosedRemote then .closed else .halfClosedLocal)
    (progress : t.progress = s.progress)
    (legal : t.flowControlViolation = true → s.flowControlViolation = true) : Passage s t .close
  | resets {op : Op} (state : t.state = .reset) (other : op.isClose = false) : Passage s t op
  | breaks {op : Op} (ended : s.state = .closed ∨ s.state = .reset) (state : t.state = s.state)
    (fin : t.finReceived = s.finReceived) (other : op.isClose = false) : Passage s t op
  | waits {op : Op} (state : t.state = s.state) (fin : t.finReceived = s.finReceived)
    (done : t.finReceived = true ∨ t.complete = false)
    (legal : t.flowControlViolation = true → s.flowControlViolation = true)
    (other : op.isClose = false) : Passage s t op
  | finishes {op : Op} (ends : s.Finishes op) (unfinished : s.finReceived = false)
    (state : t.state = if s.state = .halfClosedLocal then .closed else .halfClosedRemote)
    (fin : t.finReceived = true) (complete : t.complete = true)
    (legal : t.flowControlViolation = true → s.flowControlViolation = true)
    (other : op.isClose = false) : Passage s t op

/-- What `finishLocked` does at the end of a delivery that changed nothing else
of the lifecycle. -/
theorem passage_finishLocked {op : Op} (state : t.state = s.state)
    (fin : t.finReceived = s.finReceived)
    (legal : t.flowControlViolation = true → s.flowControlViolation = true)
    (other : op.isClose = false) (ends : t.complete = true → s.finReceived = false → s.Finishes op) :
    Passage s t.finishLocked op := by
  have received := t.finishLocked_finReceived
  by_cases ready : t.finReceived = false ∧ t.complete = true
  · have finished : t.finishLocked = { t with
        finReceived := true
        state := if t.state = .halfClosedLocal then .closed else .halfClosedRemote } := by
      have := ready.2
      simp only [complete, Bool.and_eq_true, decide_eq_true_eq] at this
      unfold finishLocked
      rw [if_neg (by simp [ready.1, this])]
    refine .finishes (ends ready.2 (fin ▸ ready.1)) (fin ▸ ready.1) ?_ ?_ ?_ ?_ other
    · rw [finished, ← state]
    · rw [finished]
    · rw [finishLocked_complete, ready.2]
    · rw [finished]
      exact legal
  · have same : t.finishLocked = t := by
      unfold finishLocked
      rw [if_pos]
      simp only [complete, Bool.and_eq_true, decide_eq_true_eq, not_and, not_le] at ready
      simp only [Bool.or_eq_true, Bool.not_eq_true', decide_eq_true_eq]
      cases done : t.finReceived <;> cases seen : t.finSeen <;> simp_all
    rw [same]
    refine .waits state fin ?_ legal other
    cases done : t.finReceived <;> simp_all

theorem passage_deliverData (offset : UInt64) (data : List UInt8) :
    Passage s (s.deliverData offset.toNat data).1 (.deliverData offset data) := by
  obtain ⟨_, _, _, _, _, same⟩ := s.sameButBuffers_placeLocked offset.toNat data
  have state := congrArg Stream.state same
  have fin := congrArg Stream.finReceived same
  have seen := congrArg Stream.finSeen same
  have size := congrArg Stream.finalSize same
  have still : (s.placeLocked offset.toNat data).2 = 0 →
      (s.placeLocked offset.toNat data).1.recvOffset = s.recvOffset := placeLocked_rejected
  unfold deliverData
  generalize result : s.placeLocked offset.toNat data = out at state fin seen size still ⊢
  dsimp only at state fin seen size
  dsimp only
  split
  · unfold reset
    split
    · rename_i ended
      exact .breaks (state ▸ ended) state fin rfl
    · exact .resets rfl rfl
  · rename_i legal
    split
    · rename_i accepted
      refine passage_finishLocked state fin (fun broken => absurd broken legal) rfl
        fun complete unfinished => ?_
      have complete : (out.1.finSeen && decide (out.1.finalSize ≤ out.1.recvOffset)) = true := complete
      rw [Bool.and_eq_true, decide_eq_true_eq, seen, size] at complete
      rw [Finishes, result]
      exact ⟨unfinished, complete.1, complete.2, accepted, Bool.eq_false_iff.mpr legal⟩
    · rename_i rejected
      refine .quiet state ?_ (fun broken => absurd broken legal) nofun
      simp only [progress, complete, fin, seen, size, still (by omega)]

theorem passage_apply (op : Op) : Passage s (s.apply op) op := by
  cases op with
  | write ask granted remaining =>
    simp only [apply]
    split
    · rename_i t batch committed
      obtain ⟨-, -, begins, after⟩ := s.writeCommit_eq_some committed
      rw [after]
      by_cases first : batch.isSyn = true
      · have idle : s.state = .idle := by
          rw [begins] at first
          simpa using (Bool.and_eq_true_iff.mp first).2
        exact .opens idle (if_pos first) rfl (fun broken => broken) rfl
      · exact .quiet (if_neg first) rfl (fun broken => broken) nofun
    · exact .quiet rfl rfl (fun broken => broken) nofun
  | close =>
    simp only [apply, close]
    split
    · exact .quiet rfl rfl (fun broken => broken) fun _ => ‹_›
    · exact .closes ‹_› rfl rfl fun broken => broken
  | reset code =>
    simp only [apply, reset]
    split
    · exact .quiet rfl rfl (fun broken => broken) nofun
    · exact .resets rfl rfl
  | deliverData offset data => exact passage_deliverData offset data
  | deliverFin finalSize =>
    refine passage_finishLocked rfl rfl (fun broken => broken) rfl fun complete unfinished => ?_
    exact ⟨unfinished, of_decide_eq_true complete⟩
  | deliverReset code => exact .resets rfl rfl
  | windowUpdate wire => exact .quiet rfl rfl (fun broken => broken) nofun
  | read size expired =>
    simp only [apply, read]
    repeat' split
    all_goals exact .quiet rfl rfl (fun broken => broken) nofun

/-- What the history says of a stream that is not reset. -/
structure Lived.Live (h : Lived) : Prop where
  fin : h.stream.finReceived = h.completed
  remote : h.completed = true ↔ h.stream.state = .halfClosedRemote ∨ h.stream.state = .closed
  here : h.closed = true ↔ h.stream.state = .halfClosedLocal ∨ h.stream.state = .closed
  legal : h.stream.flowControlViolation = true → h.stream.state = .closed

structure Lived.StateMatches (h : Lived) : Prop where
  noted : h.stream.complete = true → h.completed = true
  live : h.stream.state ≠ .reset → h.Live

/-- An operation that leaves the state alone, and after which the history says
what it said. -/
theorem Lived.Live.same {h : Lived} (live : h.Live) {op : Op}
    (state : (h.after op).stream.state = h.stream.state)
    (fin : (h.after op).stream.finReceived = h.stream.finReceived)
    (legal : (h.after op).stream.flowControlViolation = true → h.stream.state = .closed)
    (completed : (h.after op).stream.complete = true → h.completed = true)
    (closed : op.isClose = true → h.closed = true) : (h.after op).Live := by
  have completed : (h.after op).completed = h.completed := by
    cases done : h.completed
    · cases now : (h.stream.apply op).complete
      · simp [Lived.after, done, now]
      · rw [completed now] at done
        cases done
    · simp [Lived.after, done]
  have closed : (h.after op).closed = h.closed := by
    cases done : h.closed
    · cases now : op.isClose
      · simp [Lived.after, done, now]
      · rw [closed now] at done
        cases done
    · simp [Lived.after, done]
  refine ⟨?_, ?_, ?_, ?_⟩
  · rw [fin, completed, live.fin]
  · rw [completed, state, live.remote]
  · rw [closed, state, live.here]
  · rwa [state]

/-- No operation takes a stream back, except one that finishes the peer's side
of a reset stream. -/
theorem before_after {h : Lived} (stateMatches : h.StateMatches) {op : Op}
    (permitted : h.Unfinishing op) :
    h.stream.state.Before (h.after op).stream.state := by
  have passage : Passage h.stream (h.after op).stream op := passage_apply op
  generalize (h.after op).stream = t at passage ⊢
  cases passage with
  | quiet state | breaks _ state | waits state => exact .inl state.symm
  | opens was state => exact .inr (by rw [was, state]; decide)
  | closes live state =>
    rw [state]
    cases was : h.stream.state <;> simp_all [StreamState.Before, StreamState.rank]
  | resets state =>
    rw [state]
    cases h.stream.state <;> simp [StreamState.Before, StreamState.rank]
  | finishes ends unfinished state =>
    have live : h.stream.state ≠ .reset := fun reset => permitted reset ends
    obtain ⟨same, remote, -, -⟩ := stateMatches.live live
    rw [← same, unfinished] at remote
    rw [state]
    cases was : h.stream.state <;> simp_all [StreamState.Before, StreamState.rank]

theorem Lived.StateMatches.after {h : Lived} (stateMatches : h.StateMatches) {op : Op}
    (permitted : h.Unfinishing op) :
    (h.after op).StateMatches := by
  have completed : (h.after op).completed = (h.completed || (h.after op).stream.complete) := rfl
  have closed : (h.after op).closed = (h.closed || op.isClose) := rfl
  refine ⟨fun complete => by rw [completed, complete, Bool.or_true], fun running => ?_⟩
  have before : h.stream.state ≠ .reset := by
    intro reset
    have forward := before_after stateMatches permitted
    rw [reset] at forward
    exact running forward.of_reset
  have live := stateMatches.live before
  have passage : Passage h.stream (h.after op).stream op := passage_apply op
  cases passage with
  | quiet state progress legal closing =>
    obtain ⟨fin, complete⟩ := Prod.mk.inj progress
    apply live.same state fin (fun broken => live.legal (legal broken))
    · rw [complete]
      exact stateMatches.noted
    · intro close
      exact live.here.mpr (.inr ((closing close).resolve_right before))
  | opens was state progress legal other =>
    obtain ⟨fin, complete⟩ := Prod.mk.inj progress
    have incomplete : (h.after op).completed = h.completed := by
      have := stateMatches.noted
      rw [completed, complete]
      cases done : h.completed <;> simp_all
    have unclosed : (h.after op).closed = h.closed := by rw [closed, other, Bool.or_false]
    obtain ⟨same, remote, here, fair⟩ := live
    rw [was] at remote here fair
    refine ⟨by rw [fin, incomplete, same], ?_, ?_, fun broken => nomatch fair (legal broken)⟩
    · rw [incomplete, state]
      simpa using remote
    · rw [unclosed, state]
      simpa using here
  | closes unclosed state progress legal =>
    obtain ⟨fin, complete⟩ := Prod.mk.inj progress
    have incomplete : (h.after .close).completed = h.completed := by
      have := stateMatches.noted
      rw [completed, complete]
      cases done : h.completed <;> simp_all
    obtain ⟨same, remote, here, fair⟩ := live
    refine ⟨by rw [fin, incomplete, same], ?_, ?_,
      fun broken => absurd (.inl (fair (legal broken))) unclosed⟩
    · rw [incomplete, remote, state]
      split <;> simp_all
    · rw [closed, state]
      split <;> simp [Op.isClose]
  | resets state => exact absurd state running
  | breaks ended state fin other =>
    have shut := ended.resolve_right before
    exact live.same state fin (fun _ => shut) (fun _ => live.remote.mpr (.inr shut))
      (by simp [other])
  | waits state fin done legal other =>
    apply live.same state fin (fun broken => live.legal (legal broken)) _ (by simp [other])
    intro complete
    rcases done with done | incomplete
    · rw [← live.fin, ← fin, done]
    · rw [incomplete] at complete
      cases complete
  | finishes _ unfinished state fin complete legal other =>
    obtain ⟨same, remote, here, fair⟩ := live
    rw [← same, unfinished] at remote
    have unclosed : ¬ (h.stream.state = .halfClosedRemote ∨ h.stream.state = .closed) := by
      rw [← remote]
      decide
    refine ⟨by rw [fin, completed, complete, Bool.or_true], ?_, ?_,
      fun broken => absurd (.inr (fair (legal broken))) unclosed⟩
    · rw [completed, complete, state]
      split <;> simp
    · rw [closed, other, Bool.or_false, here, state]
      split <;> simp_all

/-- A reset stream: writing fails at once and sends nothing, and reading fails
once the buffer is empty. -/
structure Dead (s : Stream) : Prop where
  state : s.state = .reset
  refused : s.writeError = some .streamReset
  silent : ∀ ask granted remaining, s.writeCommit ask granted remaining = none
  read : s.recvBuf = [] → ∀ size expired, (s.read size expired).2.1 = .streamReset

theorem dead_of_reset (state : s.state = .reset) : s.Dead where
  state := state
  refused := by rw [writeError, if_pos state]
  silent ask granted remaining := by rw [writeCommit, if_pos state]
  read empty size expired := by simp [Stream.read, empty, state]

theorem stateMatches_fresh (id remoteID : UInt32) (fc : StreamFlowController) (accepted : Bool) :
    Lived.StateMatches { stream := fresh id remoteID fc accepted } := by
  refine ⟨nofun, fun _ => ⟨rfl, ?_, ?_, nofun⟩⟩
  · cases accepted <;> simp [fresh]
  · cases accepted <;> simp [fresh]

theorem before_of_run {h h' : Lived} {ops : List Op} (stateMatches : h.StateMatches)
    (along : Runs.Along Lived.step Lived.Unfinishing h ops)
    (reached : Runs.run Lived.step h ops = some h') :
    h'.StateMatches ∧ h.stream.state.Before h'.stream.state := by
  apply Runs.invariant (fun k => k.StateMatches ∧ h.stream.state.Before k.stream.state) _
    ⟨stateMatches, .inl rfl⟩ along reached
  rintro k op _ ⟨stateMatches, before⟩ permitted ⟨⟩
  exact ⟨stateMatches.after permitted, before.trans (before_after stateMatches permitted)⟩

/-- From any point of a stream's life to any later one: a reset is final, the
state only moves forward, and the stream is closed exactly when both sides have
finished. -/
theorem reset_final_and_forward (id remoteID : UInt32) (fc : StreamFlowController) (accepted : Bool)
    {ops later : List Op} {h h' : Lived}
    (along : Runs.Along Lived.step Lived.Unfinishing { stream := fresh id remoteID fc accepted }
      (ops ++ later))
    (reached : Runs.run Lived.step { stream := fresh id remoteID fc accepted } ops = some h)
    (onward : Runs.run Lived.step h later = some h') :
    (h.stream.state = .reset → h'.stream.Dead) ∧ h.stream.state.Before h'.stream.state ∧
      (h'.stream.state ≠ .reset →
        (h'.stream.state = .closed ↔ h'.closed = true ∧ h'.completed = true)) := by
  obtain ⟨first, second⟩ := along.append reached
  obtain ⟨stateMatches, -⟩ := before_of_run (stateMatches_fresh id remoteID fc accepted) first reached
  obtain ⟨stateMatches', forward⟩ := before_of_run stateMatches second onward
  refine ⟨fun reset => ?_, forward, fun running => ?_⟩
  · rw [reset] at forward
    exact dead_of_reset forward.of_reset
  · obtain ⟨-, remote, here, -⟩ := stateMatches'.live running
    rw [here, remote]
    cases h'.stream.state <;> simp

/-- The application resets the stream; then the peer's FIN comes. -/
def finAfterReset : List Op := [.reset 1, .deliverFin 0]

/-- The FIN completes the stream and takes it out of the reset state, so it can
be written again. -/
theorem finAfterReset_revives :
    ∃ h h', Runs.run Lived.step { stream := fresh 2 1 (newStreamFlowController 1 1) true }
        (finAfterReset.take 1) = some h ∧
      Runs.run Lived.step h (finAfterReset.drop 1) = some h' ∧
      h.stream.state = .reset ∧ h'.stream.state = .halfClosedRemote ∧
      h'.stream.writeError = none :=
  ⟨_, _, rfl, rfl, rfl, rfl, rfl⟩

/-- A stream that the application resets while the peer is still sending. -/
def lateArrivals : List Op :=
  [.deliverData 0 [1], .close, .deliverReset 9, .write ⟨1100, 1, 1, true⟩ 1 1]

theorem reset_final_and_forward_late :
    ∃ h h', Runs.run Lived.step { stream := fresh 2 1 (newStreamFlowController 1 1) true } [.reset 1] = some h ∧
      Runs.run Lived.step h lateArrivals = some h' ∧ h.stream.state = .reset ∧ h'.stream.Dead := by
  have along : Runs.Along Lived.step Lived.Unfinishing
      { stream := fresh 2 1 (newStreamFlowController 1 1) true }
        ([.reset 1] ++ lateArrivals) := by decide
  exact ⟨_, _, rfl, rfl, rfl,
    (reset_final_and_forward 2 1 (newStreamFlowController 1 1) true along rfl rfl).1 rfl⟩

end Stream

end Udx

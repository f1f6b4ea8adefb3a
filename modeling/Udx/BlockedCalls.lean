import Udx.HeldChunks
import Udx.Lib.Monitor
import Udx.PacketManager
import Udx.StreamLifecycle
import Udx.StreamReassembly

set_option autoImplicit false

/- Calls of `Read` and `Write` that block. A stream has two condition variables; a
reader sleeps on `recvCond` and a writer without credit on `sendCond`, each with a timer
that broadcasts. Every critical section of the stream's lock is a step here, and they
may come in any order, from any number of callers. -/

namespace Udx

inductive StreamCond where
  | recvCond
  | sendCond
deriving DecidableEq

/-- A caller's wait: when it began, and when its timer broadcasts. -/
structure LockedStream.Nap where
  since : Time
  alarm : Option Time
deriving DecidableEq

/-- A stream and what else its lock guards. Deadlines that are not set are none. -/
structure LockedStream where
  stream : Stream
  readDeadline : Option Time := none
  writeDeadline : Option Time := none
  /-- What `time.Now` has returned last. -/
  now : Time
  /-- The writers that have released the lock to send a STREAM_DATA_BLOCKED. -/
  stalled : Nat := 0
  /-- `DeliverData` has released the lock and is about to reset the stream. -/
  breaking : Bool := false

namespace LockedStream

/-- A wait that begins at `now`, or none if the deadline has passed. -/
def waitWithDeadline (now : Time) (deadline : Option Time) : Option Nap :=
  match deadline with
  | none => some ⟨now, none⟩
  | some deadline =>
    let d := deadline - now
    if d ≤ 0 then none else some ⟨now, some (now + d)⟩

/-- When a writer without credit wakes up. -/
def blockedWakeupLocked (x : LockedStream) (now : Time) : Time :=
  let retry := now + streamBlockedRetryInterval
  match x.writeDeadline with
  | some deadline => if deadline < retry then deadline else retry
  | none => retry

def expired (now : Time) (deadline : Option Time) : Bool :=
  deadline.any fun deadline => !decide (now < deadline)

/-- The critical sections. A section that reads the clock more than once is given the
later readings. -/
inductive Call where
  /-- `Read`, entered or woken, up to where it returns or waits. -/
  | read (size : Nat) (later : Time)
  /-- `Write` at the head of its wait for credit. -/
  | write
  /-- `Write` after its STREAM_DATA_BLOCKED has gone out. -/
  | stall (wakeup later : Time)
  /-- `Write` books a batch. -/
  | commit (ask : Stream.Ask) (granted remaining : Nat)
  | close
  | reset (errorCode : UInt32)
  | setReadDeadline (t : Option Time)
  | setWriteDeadline (t : Option Time)
  | deliverData (offset : UInt64) (data : List UInt8)
  /-- `DeliverData` resets the stream after a violation. -/
  | violation
  | deliverFin (finalSize : UInt64)
  | deliverReset (errorCode : UInt32)
  | onWindowUpdate (wire : UInt32)
  /-- A STREAM_DATA_BLOCKED of the peer's is answered. -/
  | refreshLimit
  /-- The function of a timer runs. One that has been stopped too late does so, too. -/
  | timer (cond : StreamCond)
  | tick (now : Time)

abbrev Outcome := Monitor.Outcome LockedStream StreamCond Nap

def resetLocked (x : LockedStream) (errorCode : UInt32) : Outcome where
  shared := { x with stream := (x.stream.reset errorCode).1 }
  wakes := if x.stream.state = .closed ∨ x.stream.state = .reset then [] else [.sendCond, .recvCond]

def critical (x : LockedStream) : Call → Option Outcome
  | .read size later =>
    if x.now ≤ later then
      match x.stream.read size (expired x.now x.readDeadline) with
      | (s, .blocked, _) =>
        some {
          shared := { x with stream := s, now := later }
          sleeps := (waitWithDeadline later x.readDeadline).map (.recvCond, ·) }
      | (s, _, _) => some { shared := { x with stream := s } }
    else none
  | .write =>
    -- a writer that need not wait goes on or returns, and changes nothing here
    if x.stream.streamFC.canSend 1 ∨ x.stream.writeError.isSome ∨ expired x.now x.writeDeadline then
      some { shared := x }
    else some { shared := { x with stalled := x.stalled + 1 } }
  | .stall wakeup later =>
    if 0 < x.stalled ∧ x.now ≤ wakeup ∧ wakeup ≤ later then
      let awake := { x with stalled := x.stalled - 1, now := later }
      if x.stream.streamFC.canSend 1 then some { shared := awake }
      else
        some {
          shared := awake
          sleeps := (waitWithDeadline later (x.blockedWakeupLocked wakeup)).map (.sendCond, ·) }
    else none
  | .commit ask granted remaining =>
    match x.stream.writeCommit ask granted remaining with
    | some (s, _) => some { shared := { x with stream := s } }
    | none => some { shared := x }
  | .close =>
    some {
      shared := { x with stream := x.stream.close.1 }
      wakes := if x.stream.state = .closed ∨ x.stream.state = .reset then [] else [.recvCond] }
  | .reset errorCode => some (x.resetLocked errorCode)
  | .setReadDeadline t => some { shared := { x with readDeadline := t }, wakes := [.recvCond] }
  | .setWriteDeadline t => some { shared := { x with writeDeadline := t }, wakes := [.sendCond] }
  | .deliverData offset data =>
    -- one goroutine delivers: a violation is dealt with before the next delivery
    if x.breaking then none
    else
      let (s, accepted) := x.stream.placeLocked offset.toNat data
      if s.flowControlViolation then some { shared := { x with stream := s, breaking := true } }
      else if accepted > 0 then
        some {
          shared := { x with
            stream := { s with streamFC := s.streamFC.onDataReceived accepted }.finishLocked }
          wakes := [.recvCond] }
      else some { shared := { x with stream := s } }
  | .violation =>
    if x.breaking then some (resetLocked { x with breaking := false } errorFlowControlError) else none
  | .deliverFin finalSize =>
    some { shared := { x with stream := x.stream.deliverFin finalSize.toNat }, wakes := [.recvCond] }
  | .deliverReset errorCode =>
    some {
      shared := { x with stream := x.stream.deliverReset errorCode }
      wakes := [.sendCond, .recvCond] }
  | .onWindowUpdate wire =>
    some { shared := { x with stream := x.stream.onWindowUpdate wire }, wakes := [.sendCond] }
  | .refreshLimit =>
    some { shared := { x with
      stream := { x.stream with streamFC := x.stream.streamFC.refreshLimit.1 } } }
  | .timer cond => some { shared := x, wakes := [cond] }
  | .tick now => if x.now ≤ now then some { shared := { x with now := now } } else none

variable {x : LockedStream} {call : Call} {o : Outcome}

/-- `DeliverData` takes one critical section, and one more after a violation. -/
theorem critical_deliverData (offset : UInt64) (data : List UInt8) (free : x.breaking = false) :
    ∃ o, critical x (.deliverData offset data) = some o ∧
      if o.shared.breaking then
        ∃ o', critical o.shared .violation = some o' ∧
          o'.shared = { x with stream := (x.stream.deliverData offset.toNat data).1 }
      else o.shared = { x with stream := (x.stream.deliverData offset.toNat data).1 } := by
  rw [critical, free]
  unfold Stream.deliverData
  dsimp only
  rw [if_neg Bool.false_ne_true]
  generalize x.stream.placeLocked offset.toNat data = out
  split
  · refine ⟨_, rfl, ?_⟩
    rw [if_pos rfl]
    exact ⟨_, rfl, by simp [resetLocked]⟩
  · split
    · exact ⟨_, rfl, by simp⟩
    · exact ⟨_, rfl, by simp⟩

end LockedStream

namespace StreamFlowController

theorem canSend_advertiseLocked (fc : StreamFlowController) (n : Int) :
    fc.advertiseLocked.1.canSend n = fc.canSend n := by
  unfold advertiseLocked
  dsimp only
  split <;> rfl

theorem canSend_advertiseLimit (fc : StreamFlowController) (n : Int) :
    fc.advertiseLimit.1.canSend n = fc.canSend n := by
  unfold advertiseLimit
  dsimp only
  rw [canSend_advertiseLocked]
  split <;> rfl

end StreamFlowController

namespace Stream

variable {s : Stream}

/-- `Read` has nothing to return. -/
structure Starved (s : Stream) : Prop where
  empty : s.recvBuf = []
  unreset : s.state ≠ .reset
  unfinished : s.finReceived = false
  unclosed : s.state ≠ .closed

theorem Starved.read (starved : s.Starved) (size : Nat) :
    s.read size false = (s, .blocked, []) := by
  simp [Stream.read, starved.empty, starved.unreset, starved.unfinished, starved.unclosed]

theorem starved_of_blocked {size : Nat} {expired : Bool} {t : Stream} {frames : List Frame}
    (blocked : s.read size expired = (t, .blocked, frames)) : s.Starved ∧ t = s := by
  have reads := s.reads_read size expired
  rw [blocked] at reads
  generalize outcome : ReadResult.blocked = result at reads
  cases reads with
  | aborted | ended | takes => cases outcome
  | waits empty live unfinished open' => exact ⟨⟨empty, live, unfinished, open'⟩, rfl⟩

theorem Starved.same_read (starved : s.Starved) (size : Nat) (expired : Bool) :
    (s.read size expired).1 = s := by
  have reads := s.reads_read size expired
  generalize s.read size expired = out at reads ⊢
  cases reads with
  | aborted | ended | waits => rfl
  | takes full => exact absurd starved.empty full

theorem Starved.live (starved : s.Starved) : ¬ (s.state = .closed ∨ s.state = .reset) :=
  not_or.mpr ⟨starved.unclosed, starved.unreset⟩

theorem Starved.placeLocked (starved : s.Starved) (lawful : s.flowControlViolation = false)
    (offset : Nat) (data : List UInt8)
    (nothing : (s.placeLocked offset data).1.flowControlViolation = true ∨
      (s.placeLocked offset data).2 = 0) : (s.placeLocked offset data).1.Starved := by
  have placed := s.placed_placeLocked offset data
  generalize s.placeLocked offset data = out at placed nothing ⊢
  cases placed with
  | known | held | excess | early =>
    exact ⟨starved.empty, starved.unreset, starved.unfinished, starved.unclosed⟩
  | next beyond begun =>
    rcases nothing with violated | rejected
    · rw [violation_release] at violated
      cases violated.symm.trans lawful
    · have none : data.length - (s.recvOffset - offset) = 0 := rejected
      have := Nat.mod_le (offset + data.length) (2 ^ 64)
      omega

/-- `Read` never waits on the stream again. -/
def Done (s : Stream) : Prop := s.state = .closed ∨ s.state = .reset ∨ s.finReceived = true

theorem Done.writeCommit (done : s.Done) {ask : Ask} {granted remaining : Nat} {t : Stream}
    {batch : Batch} (committed : s.writeCommit ask granted remaining = some (t, batch)) :
    t.Done := by
  obtain ⟨-, -, begins, rfl⟩ := s.writeCommit_eq_some committed
  have stays (begun : s.state ≠ .idle) : batch.isSyn = false := by
    rw [begins]
    simp [begun]
  rcases done with closed | reset | finished
  · have same := stays (closed ▸ nofun)
    exact .inl (by simp [same, closed])
  · have same := stays (reset ▸ nofun)
    exact .inr (.inl (by simp [same, reset]))
  · exact .inr (.inr finished)

theorem Done.close (done : s.Done) : s.close.1.Done := by
  unfold Stream.close
  split
  · exact done
  · rename_i live
    rcases done with closed | reset | finished
    · exact absurd (.inl closed) live
    · exact absurd (.inr reset) live
    · exact .inr (.inr finished)

theorem Done.finishLocked (done : s.Done) : s.finishLocked.Done := by
  unfold Stream.finishLocked
  split
  · exact done
  · exact .inr (.inr rfl)

theorem done_reset (errorCode : UInt32) : (s.reset errorCode).1.Done := by
  unfold reset
  split
  · rename_i ended
    exact ended.imp_right .inl
  · exact .inr (.inl rfl)

theorem violation_finishLocked : s.finishLocked.flowControlViolation = s.flowControlViolation := by
  unfold finishLocked
  split <;> rfl

/- What it takes to send depends on nothing that is received. -/

theorem canSend_read (size : Nat) (expired : Bool) (n : Int) :
    (s.read size expired).1.streamFC.canSend n = s.streamFC.canSend n := by
  have reads := s.reads_read size expired
  generalize s.read size expired = out at reads ⊢
  cases reads with
  | aborted | ended | waits => rfl
  | takes full fc frames books =>
    rcases books with rfl | rfl
    · rfl
    · exact StreamFlowController.canSend_advertiseLimit _ n

theorem streamFC_finishLocked : s.finishLocked.streamFC = s.streamFC := by
  unfold finishLocked
  split <;> rfl

theorem streamFC_reset (errorCode : UInt32) : (s.reset errorCode).1.streamFC = s.streamFC := by
  unfold reset
  split <;> rfl

theorem streamFC_placeLocked (offset : Nat) (data : List UInt8) :
    (s.placeLocked offset data).1.streamFC = s.streamFC := by
  obtain ⟨_, _, _, _, _, same⟩ := s.sameButBuffers_placeLocked offset data
  rw [same]

end Stream

namespace LockedStream

variable {x : LockedStream} {call : Call} {o : Outcome}

/-- A violation is dealt with, and nobody waits to read any more. -/
def ViolationHandled (x : LockedStream) : Prop :=
  x.stream.flowControlViolation = true → x.breaking = true ∨ x.stream.Done

/-- A reader has nothing to return and its timer is set for the deadline. A writer has no
credit, and its timer is set for the deadline or the next STREAM_DATA_BLOCKED. -/
def Reason (x : LockedStream) : StreamCond × Nap → Prop
  | (.recvCond, nap) => x.stream.Starved ∧ nap.alarm = x.readDeadline
  | (.sendCond, nap) => x.stream.streamFC.canSend 1 = false ∧
      ∃ alarm, nap.alarm = some alarm ∧ alarm ≤ nap.since + streamBlockedRetryInterval ∧
        ∀ deadline ∈ x.writeDeadline, alarm ≤ deadline

theorem waitWithDeadline_eq_some {now : Time} {deadline : Option Time} {nap : Nap}
    (waits : waitWithDeadline now deadline = some nap) :
    nap = ⟨now, deadline⟩ ∧ ∀ alarm ∈ deadline, now < alarm := by
  cases deadline with
  | none =>
    obtain rfl := Option.some.inj waits
    exact ⟨rfl, fun _ none => by cases none⟩
  | some deadline =>
    unfold waitWithDeadline at waits
    dsimp only at waits
    split at waits
    · cases waits
    · rename_i positive
      obtain rfl := Option.some.inj waits
      refine ⟨by rw [add_sub_cancel], ?_⟩
      rintro alarm ⟨⟩
      exact sub_pos.mp (not_le.mp positive)

theorem blockedWakeupLocked_le (x : LockedStream) (now : Time) :
    x.blockedWakeupLocked now ≤ now + streamBlockedRetryInterval ∧
      ∀ deadline ∈ x.writeDeadline, x.blockedWakeupLocked now ≤ deadline := by
  unfold blockedWakeupLocked
  rcases x.writeDeadline with _ | deadline
  · exact ⟨Int.le_refl _, fun _ none => by cases none⟩
  · by_cases sooner : deadline < now + streamBlockedRetryInterval
    · simp only [sooner, ↓reduceIte]
      refine ⟨Int.le_of_lt sooner, ?_⟩
      rintro _ ⟨⟩
      exact Int.le_refl _
    · simp only [sooner, ↓reduceIte]
      refine ⟨Int.le_refl _, ?_⟩
      rintro _ ⟨⟩
      exact Int.not_lt.mp sooner

theorem reason_of_sleeps (entered : critical x call = some o) {p : StreamCond × Nap}
    (sleeps : p ∈ o.sleeps) :
    o.shared.Reason p ∧ p.2.since = o.shared.now ∧ ∀ alarm ∈ p.2.alarm, o.shared.now < alarm := by
  cases call with
  | read size later =>
    rw [critical] at entered
    split at entered
    · split at entered
      · rename_i s frames blocked
        obtain rfl := Option.some.inj entered
        obtain ⟨nap, waits, rfl⟩ := Option.map_eq_some_iff.mp sleeps
        obtain ⟨starved, rfl⟩ := Stream.starved_of_blocked blocked
        obtain ⟨rfl, ahead⟩ := waitWithDeadline_eq_some waits
        exact ⟨⟨starved, rfl⟩, rfl, ahead⟩
      · obtain rfl := Option.some.inj entered
        cases sleeps
    · cases entered
  | stall wakeup later =>
    rw [critical] at entered
    split at entered
    · rename_i handled
      dsimp only at entered
      split at entered
      · obtain rfl := Option.some.inj entered
        cases sleeps
      · rename_i empty
        obtain rfl := Option.some.inj entered
        obtain ⟨nap, waits, rfl⟩ := Option.map_eq_some_iff.mp sleeps
        obtain ⟨rfl, ahead⟩ := waitWithDeadline_eq_some waits
        obtain ⟨soon, before⟩ := x.blockedWakeupLocked_le wakeup
        have asked : wakeup ≤ later := handled.2.2
        exact ⟨⟨Bool.eq_false_iff.mpr empty, _, rfl,
          soon.trans (Int.add_le_add_right asked _), before⟩, rfl, ahead⟩
    · cases entered
  | deliverData =>
    rw [critical] at entered
    dsimp only at entered
    repeat' split at entered
    all_goals cases entered
    all_goals cases sleeps
  | write | commit | violation | tick =>
    rw [critical] at entered
    split at entered
    all_goals cases entered
    all_goals cases sleeps
  | close | reset | setReadDeadline | setWriteDeadline | deliverFin | deliverReset
  | onWindowUpdate | refreshLimit | timer =>
    obtain rfl := Option.some.inj entered
    cases sleeps

theorem mem_wakes_resetLocked (live : ¬ (x.stream.state = .closed ∨ x.stream.state = .reset))
    (errorCode : UInt32) (cond : StreamCond) : cond ∈ (x.resetLocked errorCode).wakes := by
  rw [resetLocked, if_neg live]
  cases cond <;> simp

/-- A reader sleeps through what brings it nothing. -/
theorem starved_of_unwoken (handled : x.ViolationHandled) (entered : critical x call = some o)
    (unwoken : .recvCond ∉ o.wakes) (starved : x.stream.Starved) :
    o.shared.stream.Starved ∧ o.shared.readDeadline = x.readDeadline := by
  cases call with
  | read size later =>
    rw [critical] at entered
    split at entered
    · have same := starved.same_read size (expired x.now x.readDeadline)
      generalize x.stream.read size (expired x.now x.readDeadline) = out at same entered
      split at entered
      all_goals
        obtain rfl := Option.some.inj entered
        exact ⟨Eq.subst (motive := Stream.Starved) same.symm starved, rfl⟩
    · cases entered
  | write =>
    rw [critical] at entered
    split at entered
    all_goals
      obtain rfl := Option.some.inj entered
      exact ⟨starved, rfl⟩
  | stall wakeup later =>
    rw [critical] at entered
    split at entered
    · dsimp only at entered
      split at entered
      all_goals
        obtain rfl := Option.some.inj entered
        exact ⟨starved, rfl⟩
    · cases entered
  | commit ask granted remaining =>
    rw [critical] at entered
    split at entered
    · rename_i s batch committed
      obtain rfl := Option.some.inj entered
      obtain ⟨-, -, -, rfl⟩ := x.stream.writeCommit_eq_some committed
      refine ⟨⟨starved.empty, ?_, starved.unfinished, ?_⟩, rfl⟩
      · dsimp only
        split
        · exact nofun
        · exact starved.unreset
      · dsimp only
        split
        · exact nofun
        · exact starved.unclosed
    · obtain rfl := Option.some.inj entered
      exact ⟨starved, rfl⟩
  | close =>
    obtain rfl := Option.some.inj entered
    dsimp only at unwoken
    rw [if_neg starved.live] at unwoken
    exact absurd (List.mem_singleton_self _) unwoken
  | reset errorCode =>
    obtain rfl := Option.some.inj entered
    exact absurd (mem_wakes_resetLocked starved.live errorCode .recvCond) unwoken
  | deliverData offset data =>
    rw [critical] at entered
    split at entered
    · cases entered
    · rename_i free
      have lawful : x.stream.flowControlViolation = false := by
        rw [Bool.eq_false_iff]
        intro violated
        rcases handled violated with breaking | closed | reset | finished
        · exact free breaking
        · exact starved.unclosed closed
        · exact starved.unreset reset
        · cases starved.unfinished.symm.trans finished
      have nothing := starved.placeLocked lawful offset.toNat data
      generalize x.stream.placeLocked offset.toNat data = out at nothing entered
      dsimp only at entered
      split at entered
      · rename_i violated
        obtain rfl := Option.some.inj entered
        exact ⟨nothing (.inl violated), rfl⟩
      · split at entered
        · obtain rfl := Option.some.inj entered
          exact absurd (List.mem_singleton_self _) unwoken
        · rename_i rejected
          obtain rfl := Option.some.inj entered
          exact ⟨nothing (.inr (by omega)), rfl⟩
  | violation =>
    rw [critical] at entered
    split at entered
    · obtain rfl := Option.some.inj entered
      exact absurd (mem_wakes_resetLocked starved.live errorFlowControlError .recvCond) unwoken
    · cases entered
  | onWindowUpdate wire =>
    obtain rfl := Option.some.inj entered
    exact ⟨⟨starved.empty, starved.unreset, starved.unfinished, starved.unclosed⟩, rfl⟩
  | refreshLimit =>
    obtain rfl := Option.some.inj entered
    exact ⟨⟨starved.empty, starved.unreset, starved.unfinished, starved.unclosed⟩, rfl⟩
  | setReadDeadline | deliverFin | deliverReset =>
    obtain rfl := Option.some.inj entered
    exact absurd (by simp) unwoken
  | setWriteDeadline | timer =>
    obtain rfl := Option.some.inj entered
    exact ⟨starved, rfl⟩
  | tick now =>
    rw [critical] at entered
    split at entered
    · obtain rfl := Option.some.inj entered
      exact ⟨starved, rfl⟩
    · cases entered

/-- No section gives a writer credit without waking it. -/
theorem unable_of_unwoken (entered : critical x call = some o) (unwoken : .sendCond ∉ o.wakes)
    (unable : x.stream.streamFC.canSend 1 = false) :
    o.shared.stream.streamFC.canSend 1 = false ∧ o.shared.writeDeadline = x.writeDeadline := by
  cases call with
  | read size later =>
    rw [critical] at entered
    split at entered
    · have same := x.stream.canSend_read size (expired x.now x.readDeadline) 1
      generalize x.stream.read size (expired x.now x.readDeadline) = out at same entered
      split at entered
      all_goals
        obtain rfl := Option.some.inj entered
        exact ⟨same.trans unable, rfl⟩
    · cases entered
  | stall wakeup later =>
    rw [critical] at entered
    split at entered
    · dsimp only at entered
      split at entered
      all_goals
        obtain rfl := Option.some.inj entered
        exact ⟨unable, rfl⟩
    · cases entered
  | commit ask granted remaining =>
    rw [critical] at entered
    split at entered
    · rename_i s batch committed
      obtain rfl := Option.some.inj entered
      obtain ⟨-, -, -, rfl⟩ := x.stream.writeCommit_eq_some committed
      have short := of_decide_eq_false unable
      refine ⟨decide_eq_false ?_, rfl⟩
      show ¬ x.stream.streamFC.dataSent + batch.granted + 1 ≤ x.stream.streamFC.maxStreamData
      omega
    · obtain rfl := Option.some.inj entered
      exact ⟨unable, rfl⟩
  | close =>
    obtain rfl := Option.some.inj entered
    refine ⟨?_, rfl⟩
    dsimp only
    unfold Stream.close
    split <;> exact unable
  | reset errorCode =>
    obtain rfl := Option.some.inj entered
    exact ⟨x.stream.streamFC_reset errorCode ▸ unable, rfl⟩
  | deliverData offset data =>
    rw [critical] at entered
    split at entered
    · cases entered
    · have same := x.stream.streamFC_placeLocked offset.toNat data
      generalize x.stream.placeLocked offset.toNat data = out at same entered
      dsimp only at entered
      repeat' split at entered
      all_goals
        obtain rfl := Option.some.inj entered
        refine ⟨?_, rfl⟩
      · exact same ▸ unable
      · rw [Stream.streamFC_finishLocked]
        rw [← same] at unable
        exact unable
      · exact same ▸ unable
  | violation =>
    rw [critical] at entered
    split at entered
    · obtain rfl := Option.some.inj entered
      exact ⟨x.stream.streamFC_reset errorFlowControlError ▸ unable, rfl⟩
    · cases entered
  | deliverFin finalSize =>
    obtain rfl := Option.some.inj entered
    refine ⟨?_, rfl⟩
    show (Stream.finishLocked _).streamFC.canSend 1 = false
    rw [Stream.streamFC_finishLocked]
    exact unable
  | setWriteDeadline | deliverReset | onWindowUpdate =>
    obtain rfl := Option.some.inj entered
    exact absurd (by simp) unwoken
  | refreshLimit =>
    obtain rfl := Option.some.inj entered
    exact ⟨(StreamFlowController.canSend_advertiseLocked _ 1).trans unable, rfl⟩
  | setReadDeadline | timer =>
    obtain rfl := Option.some.inj entered
    exact ⟨unable, rfl⟩
  | write | tick =>
    rw [critical] at entered
    split at entered
    all_goals cases entered
    all_goals exact ⟨unable, rfl⟩

theorem ViolationHandled.critical (handled : x.ViolationHandled)
    (entered : critical x call = some o) :
    o.shared.ViolationHandled := by
  cases call with
  | read size later =>
    rw [LockedStream.critical] at entered
    split at entered
    · have reads := x.stream.reads_read size (expired x.now x.readDeadline)
      generalize x.stream.read size (expired x.now x.readDeadline) = out at reads entered
      have kept : ViolationHandled { x with stream := out.1 } := by
        cases reads with
        | aborted | ended | waits | takes => exact handled
      split at entered
      all_goals
        obtain rfl := Option.some.inj entered
        exact kept
    · cases entered
  | stall wakeup later =>
    rw [LockedStream.critical] at entered
    split at entered
    · dsimp only at entered
      split at entered
      all_goals
        obtain rfl := Option.some.inj entered
        exact handled
    · cases entered
  | commit ask granted remaining =>
    rw [LockedStream.critical] at entered
    split at entered
    · rename_i s batch committed
      obtain rfl := Option.some.inj entered
      refine fun violated => (handled ?_).imp_right fun done => done.writeCommit committed
      obtain ⟨-, -, -, rfl⟩ := x.stream.writeCommit_eq_some committed
      exact violated
    · obtain rfl := Option.some.inj entered
      exact handled
  | close =>
    obtain rfl := Option.some.inj entered
    refine fun violated => (handled ?_).imp_right Stream.Done.close
    unfold Stream.close at violated
    split at violated <;> exact violated
  | reset errorCode =>
    obtain rfl := Option.some.inj entered
    exact fun _ => .inr (x.stream.done_reset errorCode)
  | deliverData offset data =>
    rw [LockedStream.critical] at entered
    split at entered
    · cases entered
    · dsimp only at entered
      split at entered
      · obtain rfl := Option.some.inj entered
        exact fun _ => .inl rfl
      · rename_i lawful
        split at entered
        · obtain rfl := Option.some.inj entered
          intro violated
          dsimp only at violated
          rw [Stream.violation_finishLocked] at violated
          exact absurd violated lawful
        · obtain rfl := Option.some.inj entered
          exact fun violated => absurd violated lawful
  | violation =>
    rw [LockedStream.critical] at entered
    split at entered
    · obtain rfl := Option.some.inj entered
      exact fun _ => .inr (x.stream.done_reset errorFlowControlError)
    · cases entered
  | deliverFin finalSize =>
    obtain rfl := Option.some.inj entered
    intro violated
    change (Stream.finishLocked _).flowControlViolation = true at violated
    rw [Stream.violation_finishLocked] at violated
    exact (handled violated).imp_right fun done => Stream.Done.finishLocked done
  | deliverReset errorCode =>
    obtain rfl := Option.some.inj entered
    exact fun _ => .inr (.inr (.inl rfl))
  | setReadDeadline | setWriteDeadline | onWindowUpdate | refreshLimit | timer =>
    obtain rfl := Option.some.inj entered
    exact handled
  | write | tick =>
    rw [LockedStream.critical] at entered
    split at entered
    all_goals cases entered
    all_goals exact handled

theorem wakesAll_critical : Monitor.WakesAll critical ViolationHandled Reason where
  keeps handled entered := handled.critical entered
  others {x i o} handled entered p unwoken reason := by
    obtain ⟨cond, nap⟩ := p
    cases cond with
    | recvCond =>
      obtain ⟨starved, same⟩ := starved_of_unwoken handled entered unwoken reason.1
      exact ⟨starved, reason.2.trans same.symm⟩
    | sendCond =>
      obtain ⟨unable, same⟩ := unable_of_unwoken entered unwoken reason.1
      refine ⟨unable, ?_⟩
      rw [same]
      exact reason.2
  own entered p sleeps := (reason_of_sleeps entered sleeps).1

end LockedStream

namespace LockedStream

/-- A stream that nobody waits on yet. -/
def fresh (id remoteID : UInt32) (fc : StreamFlowController) (accepted : Bool) (now : Time) :
    Monitor.Room LockedStream StreamCond Nap where
  shared := { stream := .fresh id remoteID fc accepted, now := now }

/-- The clock does not pass a timer that is set: its function runs before. -/
def TimersOnTime (r : Monitor.Room LockedStream StreamCond Nap) (call : Call) : Prop :=
  ∀ o ∈ critical r.shared call, ∀ p ∈ r.asleep, ∀ alarm ∈ p.2.alarm, o.shared.now ≤ alarm

instance (r : Monitor.Room LockedStream StreamCond Nap) (call : Call) :
    Decidable (TimersOnTime r call) :=
  inferInstanceAs (Decidable
    (∀ o ∈ critical r.shared call, ∀ p ∈ r.asleep, ∀ alarm ∈ p.2.alarm, o.shared.now ≤ alarm))

variable {id remoteID : UInt32} {fc : StreamFlowController} {accepted : Bool} {now : Time}
  {calls : List Call} {r : Monitor.Room LockedStream StreamCond Nap}

theorem justified_fresh (reason : LockedStream → StreamCond × Nap → Prop) :
    (fresh id remoteID fc accepted now).Justified reason :=
  fun p asleep => by cases asleep

theorem justified_run
    (reached : Runs.run (Monitor.step critical) (fresh id remoteID fc accepted now) calls = some r) :
    r.Justified Reason :=
  (wakesAll_critical.run (fun violated => by cases violated) (justified_fresh Reason) reached).2

/-- No wakeup of a reader is lost. Whatever is called on a stream, delivered to it and timed
out, in any order: a caller that sleeps in `Read` would be put to sleep again if it were
woken, and its timer is set for the deadline there is. -/
theorem reader_sleeps_starved
    (reached : Runs.run (Monitor.step critical) (fresh id remoteID fc accepted now) calls = some r)
    {nap : Nap} (asleep : (.recvCond, nap) ∈ r.asleep) (size : Nat) :
    r.shared.stream.read size false = (r.shared.stream, .blocked, []) ∧
      nap.alarm = r.shared.readDeadline := by
  obtain ⟨starved, alarm⟩ := justified_run reached _ asleep
  exact ⟨starved.read size, alarm⟩

/-- A stream of which the peer lets nothing be sent. -/
def still : Monitor.Room LockedStream StreamCond Nap :=
  fresh 1 0 (newStreamFlowController 0 initialMaxStreamData) false 0

/-- A reader waits for a deadline, and credit comes for its writers. -/
def reading : List Call :=
  [.setReadDeadline (some 10), .read 4 0, .tick 5, .onWindowUpdate 100]

theorem reader_sleeps_starved_reading :
    ∃ r, Runs.run (Monitor.step critical) still reading = some r ∧
      r.asleep = [(.recvCond, ⟨0, some 10⟩)] ∧
      r.shared.stream.read 4 false = (r.shared.stream, .blocked, []) := by
  have asleep : (Runs.run (Monitor.step critical) still reading).any (fun r =>
      decide (r.asleep = [(.recvCond, ⟨0, some 10⟩)])) = true := by decide
  obtain ⟨r, reached, asleep⟩ := Runs.reaches_of_any asleep
  have asleep := of_decide_eq_true asleep
  exact ⟨r, reached, asleep,
    (reader_sleeps_starved reached (asleep ▸ List.mem_singleton_self _) 4).1⟩

/-- No wakeup of a writer for credit is lost: a caller that sleeps in `Write` has none, and its
timer is set for no later than the deadline there is and the next STREAM_DATA_BLOCKED. -/
theorem writer_sleeps_unable
    (reached : Runs.run (Monitor.step critical) (fresh id remoteID fc accepted now) calls = some r)
    {nap : Nap} (asleep : (.sendCond, nap) ∈ r.asleep) :
    r.shared.stream.streamFC.canSend 1 = false ∧
      ∃ alarm, nap.alarm = some alarm ∧ alarm ≤ nap.since + streamBlockedRetryInterval ∧
        ∀ deadline ∈ r.shared.writeDeadline, alarm ≤ deadline :=
  justified_run reached _ asleep

/-- A writer finds no credit, says so and waits for the next time to say it. -/
def writing : List Call := [.setWriteDeadline (some second), .write, .stall 1 2, .tick 3]

theorem writer_sleeps_unable_writing :
    ∃ r nap, Runs.run (Monitor.step critical) still writing = some r ∧
      r.asleep = [(.sendCond, nap)] ∧ nap.since = 2 ∧
      ∃ alarm, nap.alarm = some alarm ∧ alarm ≤ 2 + streamBlockedRetryInterval := by
  have asleep : (Runs.run (Monitor.step critical) still writing).any (fun r =>
      decide (r.asleep = [(.sendCond, ⟨2, some (1 + streamBlockedRetryInterval)⟩)])) = true := by
    decide
  obtain ⟨r, reached, asleep⟩ := Runs.reaches_of_any asleep
  have asleep := of_decide_eq_true asleep
  obtain ⟨-, alarm, set, soon, -⟩ :=
    writer_sleeps_unable reached (asleep ▸ List.mem_singleton_self _)
  exact ⟨r, _, reached, asleep, rfl, alarm, set, soon⟩

-- Other wakeups of a writer are lost: the stream is reset while the writer says that it is
-- stalled, and it goes to sleep all the same, until its timer.
example : (Runs.run (Monitor.step critical) still [.write, .reset 7, .stall 0 0]).any (fun r =>
    decide (r.shared.stream.state = .reset ∧
      r.asleep = [(.sendCond, ⟨0, some streamBlockedRetryInterval⟩)])) = true := by
  decide

/-- Where timers run before the clock passes them, nobody sleeps past a deadline, not even one
set in the meantime, and no writer for longer than a STREAM_DATA_BLOCKED takes to be due. -/
theorem sleeps_in_time
    (along : Runs.Along (Monitor.step critical) TimersOnTime (fresh id remoteID fc accepted now) calls)
    (reached : Runs.run (Monitor.step critical) (fresh id remoteID fc accepted now) calls = some r)
    {p : StreamCond × Nap} (asleep : p ∈ r.asleep) :
    match p.1 with
    | .recvCond => ∀ deadline ∈ r.shared.readDeadline, r.shared.now ≤ deadline
    | .sendCond => r.shared.now ≤ p.2.since + streamBlockedRetryInterval ∧
        ∀ deadline ∈ r.shared.writeDeadline, r.shared.now ≤ deadline := by
  have timely : r.Justified fun x p => ∀ alarm ∈ p.2.alarm, x.now ≤ alarm := by
    refine Runs.invariant (Monitor.Room.Justified fun x p => ∀ alarm ∈ p.2.alarm, x.now ≤ alarm)
      ?_ (justified_fresh _) along reached
    rintro r call r' justified prompt taken
    obtain ⟨o, entered, rfl⟩ := Option.map_eq_some_iff.mp taken
    refine justified.after (fun p before _ _ => prompt o entered p before) fun p sleeps alarm set => ?_
    exact Int.le_of_lt ((reason_of_sleeps entered sleeps).2.2 alarm set)
  have reason := justified_run reached p asleep
  have before := timely p asleep
  obtain ⟨cond, nap⟩ := p
  cases cond with
  | recvCond =>
    intro deadline set
    exact before deadline (reason.2 ▸ set)
  | sendCond =>
    obtain ⟨-, alarm, set, soon, sooner⟩ := reason
    have reached := before alarm set
    exact ⟨reached.trans soon, fun deadline set => reached.trans (sooner deadline set)⟩

theorem sleeps_in_time_reading :
    ∃ r, Runs.run (Monitor.step critical) still reading = some r ∧ r.shared.readDeadline = some 10 ∧
      ∀ deadline ∈ r.shared.readDeadline, r.shared.now ≤ deadline := by
  have along : Runs.Along (Monitor.step critical) TimersOnTime still reading := by decide
  have asleep : (Runs.run (Monitor.step critical) still reading).any (fun r =>
      decide (r.asleep = [(.recvCond, ⟨0, some 10⟩)] ∧ r.shared.readDeadline = some 10)) = true := by
    decide
  obtain ⟨r, reached, asleep⟩ := Runs.reaches_of_any asleep
  obtain ⟨asleep, deadline⟩ := of_decide_eq_true asleep
  exact ⟨r, reached, deadline, sleeps_in_time along reached (asleep ▸ List.mem_singleton_self _)⟩

end LockedStream

end Udx

import Udx.FlowLimits
import Udx.Lib.Slices
import Udx.StreamSpans

set_option autoImplicit false

namespace Udx

open Slices Spans

/- Any number of `Write` calls on one stream, cut where they release the stream's
lock: while a writer waits for credit, while the connection grants it some, and while
the frames are handed over. Window updates, deadlines and resets come in whenever the
lock is free. -/

/-- Why a `Write` stopped early. -/
inductive WriteFailure where
  | stream (error : WriteError)
  | deadlineExceeded
deriving DecidableEq

inductive WriteCall.Phase where
  /-- About to look at the send window, or waiting for it. -/
  | waiting
  /-- In `awaitSendCreditUpTo`, with the lock released. -/
  | asked (ask : Stream.Ask)
  /-- In `sendStreamFrames`, with the lock released. -/
  | sending (batch : Stream.Batch) (chunkSize : Nat)
  | returned (n : Nat) (error : Option WriteFailure)

structure WriteCall where
  arg : List UInt8
  total : Nat
  phase : WriteCall.Phase

/-- A frame handed over, with the call it comes from and the chunk size of that
time. -/
structure WriteCalls.Emission where
  call : Nat
  chunkSize : Nat
  frame : StreamFrame

/-- A stream, the calls on it by number and the frames handed over in order.
`placed` is the stream's bytes as they were booked, each with the number of the
call that placed it. -/
structure WriteCalls where
  stream : Stream
  calls : List WriteCall := []
  emitted : List WriteCalls.Emission := []
  placed : List (Nat × UInt8) := []

namespace WriteCalls

inductive Step where
  | write (arg : List UInt8) (mtu : MTUDiscovery)
  | resume (i : Nat) (mtu : MTUDiscovery)
  | expire (i : Nat)
  | commit (i : Nat) (granted : Nat)
  | refuse (i : Nat)
  | send (i : Nat)
  | updateMaxStreamData (limit : Int)
  | reset (errorCode : UInt32)
  | deliverReset (errorCode : UInt32)

/-- The head of the write loop. Only a writer without credit looks at the
state. -/
def head (s : Stream) (mtu : MTUDiscovery) (arg : List UInt8) (total : Nat) : WriteCall.Phase :=
  if (arg.drop total).length = 0 then .returned total none
  else
    match s.writeAsk mtu.current (arg.drop total).length with
    | some ask => .asked ask
    | none =>
      match s.writeError with
      | some error => .returned total (some (.stream error))
      | none => .waiting

def enter (s : Stream) (mtu : MTUDiscovery) (arg : List UInt8) : WriteCall :=
  match s.writeError with
  | some error => ⟨arg, 0, .returned 0 (some (.stream error))⟩
  | none => ⟨arg, 0, head s mtu arg 0⟩

/-- The batch as it goes to the connection. -/
def frames (batch : Stream.Batch) (chunkSize : Nat) (data : List UInt8) : List StreamFrame :=
  streamFrames false (UInt64.ofNat batch.offset) batch.isSyn
    (Chunks.chunks chunkSize (data.take batch.granted))

def step (w : WriteCalls) : Step → Option WriteCalls
  | .write arg mtu => some { w with calls := w.calls ++ [enter w.stream mtu arg] }
  | .resume i mtu =>
    match w.calls[i]? with
    | some ⟨arg, total, .waiting⟩ =>
      some { w with calls := w.calls.set i ⟨arg, total, head w.stream mtu arg total⟩ }
    | _ => none
  | .expire i =>
    match w.calls[i]? with
    | some ⟨arg, total, .waiting⟩ =>
      -- The deadline is looked at last, and only while there is no credit.
      if total < arg.length ∧ w.stream.streamFC.canSend 1 = false ∧ w.stream.writeError = none then
        some { w with calls := w.calls.set i ⟨arg, total, .returned total (some .deadlineExceeded)⟩ }
      else none
    | _ => none
  | .commit i granted =>
    match w.calls[i]? with
    | some ⟨arg, total, .asked ask⟩ =>
      if ask.first ≤ granted ∧ granted ≤ ask.want then
        match w.stream.writeCommit ask granted (arg.drop total).length with
        | some (s, batch) =>
          some { w with
            stream := s
            calls := w.calls.set i ⟨arg, total, .sending batch ask.chunkSize⟩
            placed := w.placed ++ ((arg.drop total).take batch.granted).map (Prod.mk i) }
        | none =>
          let phase :=
            if w.stream.state = .reset then .returned total (some (.stream .streamReset))
            else .waiting
          some { w with calls := w.calls.set i ⟨arg, total, phase⟩ }
      else none
    | _ => none
  | .refuse i =>
    match w.calls[i]? with
    | some ⟨arg, total, .asked _⟩ =>
      let failure :=
        if w.stream.state = .reset then .stream .streamReset else WriteFailure.deadlineExceeded
      some { w with calls := w.calls.set i ⟨arg, total, .returned total (some failure)⟩ }
    | _ => none
  | .send i =>
    match w.calls[i]? with
    | some ⟨arg, total, .sending batch chunkSize⟩ =>
      some { w with
        calls := w.calls.set i ⟨arg, total + batch.granted, .waiting⟩
        emitted := w.emitted ++
          (frames batch chunkSize (arg.drop total)).map fun frame => ⟨i, chunkSize, frame⟩ }
    | _ => none
  | .updateMaxStreamData limit =>
    -- Any limit that fits the source's `int64`.
    if limit < 2 ^ 63 then
      some { w with
        stream := { w.stream with streamFC := w.stream.streamFC.updateMaxStreamData limit } }
    else none
  | .reset errorCode => some { w with stream := (w.stream.reset errorCode).1 }
  | .deliverReset errorCode => some { w with stream := w.stream.deliverReset errorCode }

end WriteCalls

/-- The call wrote `data` at `offset` of the stream. -/
def WriteCalls.WroteAt (placed : List (Nat × UInt8)) (call offset : Nat)
    (data : List UInt8) : Prop :=
  Slice placed offset (data.map (Prod.mk call))

/-- A data frame of at most a chunk, with the bytes its call wrote there. -/
structure WriteCalls.Emission.Carries (placed : List (Nat × UInt8))
    (e : WriteCalls.Emission) : Prop where
  plain : e.frame.isFin = false
  nonempty : 0 < e.frame.data.length
  short : e.frame.data.length ≤ e.chunkSize
  wrote : WriteCalls.WroteAt placed e.call e.frame.offset.toNat e.frame.data

/-- The byte at `x` is booked and being handed over. -/
def WriteCall.sends (x : Nat) (c : WriteCall) : Bool :=
  match c.phase with
  | .sending batch _ => decide (x ∈ (⟨batch.offset, batch.offset + batch.granted⟩ : Span))
  | _ => false

namespace WriteCalls

/-- No call is between booking a batch and handing it over. -/
def NoneSending (w : WriteCalls) : Prop :=
  ∀ c ∈ w.calls, ∀ batch chunkSize, c.phase ≠ .sending batch chunkSize

def output (emitted : List Emission) (i : Nat) : List UInt8 :=
  (emitted.filter fun e => e.call = i).flatMap fun e => e.frame.data

/-- The written bytes go out, each once, within the credit, and a SYN with the first of
a stream that began idle. -/
structure SendsWritten (begun : Prop) (w : WriteCalls) : Prop where
  booked : (w.stream.bytesWritten : Int) = w.stream.streamFC.dataSent
  credit : w.stream.streamFC.dataSent ≤ w.stream.streamFC.maxStreamData
  length : w.placed.length = w.stream.bytesWritten
  once : ∀ x, w.emitted.countP (fun e => x ∈ e.frame.span) + w.calls.countP (WriteCall.sends x) =
    if x < w.stream.bytesWritten then 1 else 0
  partition : w.NoneSending → ∀ x, w.emitted.countP (fun e => x ∈ e.frame.span) =
    if x < w.stream.bytesWritten then 1 else 0
  emitted : ∀ e ∈ w.emitted, e.Carries w.placed
  syn : ∀ e ∈ w.emitted, e.frame.isSyn = true ↔ begun ∧ e.frame.offset.toNat = 0
  returned : ∀ i arg total n error, w.calls[i]? = some ⟨arg, total, .returned n error⟩ →
    output w.emitted i = arg.take n ∧ n ≤ arg.length ∧ (n < arg.length → error ≠ none)

-- What a step can do.

/-- A call that has booked nothing looks again, waits or gives up. -/
inductive Turned (s : Stream) (c : WriteCall) : WriteCall.Phase → Prop
  | head (mtu : MTUDiscovery) : Turned s c (head s mtu c.arg c.total)
  | wait : Turned s c .waiting
  | fail (error : WriteFailure) : Turned s c (.returned c.total (some error))

/-- The stream changes under its writers. -/
inductive Beneath (s : Stream) : Stream → Prop
  | same : Beneath s s
  | limit (limit : Int) (small : limit < 2 ^ 63) :
    Beneath s { s with streamFC := s.streamFC.updateMaxStreamData limit }
  | reset (errorCode : UInt32) : Beneath s { s with state := .reset, resetCode := errorCode }

inductive Stepped (w : WriteCalls) : Step → WriteCalls → Prop
  | write (arg : List UInt8) (mtu : MTUDiscovery) :
    Stepped w (.write arg mtu) { w with calls := w.calls ++ [enter w.stream mtu arg] }
  | turn {step : Step} {i : Nat} {c : WriteCall} {phase : WriteCall.Phase}
    (found : w.calls[i]? = some c) (unbooked : ∀ batch chunkSize, c.phase ≠ .sending batch chunkSize)
    (turned : Turned w.stream c phase) :
    Stepped w step { w with calls := w.calls.set i ⟨c.arg, c.total, phase⟩ }
  | commit {i granted total : Nat} {arg : List UInt8} {ask : Stream.Ask} {t : Stream}
    {batch : Stream.Batch} (found : w.calls[i]? = some ⟨arg, total, .asked ask⟩)
    (range : granted ≤ ask.want)
    (committed : w.stream.writeCommit ask granted (arg.drop total).length = some (t, batch)) :
    Stepped w (.commit i granted) { w with
      stream := t
      calls := w.calls.set i ⟨arg, total, .sending batch ask.chunkSize⟩
      placed := w.placed ++ ((arg.drop total).take batch.granted).map (Prod.mk i) }
  | send {i total chunkSize : Nat} {arg : List UInt8} {batch : Stream.Batch}
    (found : w.calls[i]? = some ⟨arg, total, .sending batch chunkSize⟩) :
    Stepped w (.send i) { w with
      calls := w.calls.set i ⟨arg, total + batch.granted, .waiting⟩
      emitted := w.emitted ++
        (frames batch chunkSize (arg.drop total)).map fun frame => ⟨i, chunkSize, frame⟩ }
  | beneath {step : Step} {t : Stream} (under : Beneath w.stream t) :
    Stepped w step { w with stream := t }

variable {w w' : WriteCalls} {begun : Prop}

theorem stepped_of_step {i : Step} (taken : w.step i = some w') : Stepped w i w' := by
  cases i with
  | write arg mtu =>
    cases taken
    exact .write arg mtu
  | resume i mtu =>
    simp only [WriteCalls.step] at taken
    split at taken
    · rename_i arg total found
      cases taken
      exact .turn found nofun (.head mtu)
    · cases taken
  | expire i =>
    simp only [WriteCalls.step] at taken
    split at taken
    · rename_i arg total found
      obtain ⟨-, ⟨⟩⟩ := Option.ite_none_right_eq_some.mp taken
      exact .turn found nofun (.fail _)
    · cases taken
  | commit i granted =>
    simp only [WriteCalls.step] at taken
    split at taken
    · rename_i arg total ask found
      obtain ⟨range, taken⟩ := Option.ite_none_right_eq_some.mp taken
      split at taken
      · rename_i t batch committed
        cases taken
        exact .commit found range.2 committed
      · cases taken
        split
        · exact .turn found nofun (.fail _)
        · exact .turn found nofun .wait
    · cases taken
  | refuse i =>
    simp only [WriteCalls.step] at taken
    split at taken
    · rename_i arg total ask found
      cases taken
      exact .turn found nofun (.fail _)
    · cases taken
  | send i =>
    simp only [WriteCalls.step] at taken
    split at taken
    · rename_i arg total batch chunkSize found
      cases taken
      exact .send found
    · cases taken
  | updateMaxStreamData limit =>
    obtain ⟨small, ⟨⟩⟩ := Option.ite_none_right_eq_some.mp taken
    exact .beneath (.limit limit small)
  | reset errorCode =>
    cases taken
    rw [Stream.reset]
    split
    · exact .beneath .same
    · exact .beneath (.reset errorCode)
  | deliverReset errorCode =>
    cases taken
    exact .beneath (.reset errorCode)

theorem Beneath.bytesWritten {s t : Stream} (under : Beneath s t) :
    t.bytesWritten = s.bytesWritten := by
  cases under <;> rfl

/-- A stream that refuses writes goes on doing so. -/
theorem Beneath.writeError {s t : Stream} (under : Beneath s t) (refuses : s.writeError ≠ none) :
    t.writeError ≠ none := by
  cases under with
  | same | limit => exact refuses
  | reset => exact Option.some_ne_none _

-- The bytes and the frames.

/-- What a call's phase says of it. -/
def Stands (placed : List (Nat × UInt8)) (i : Nat) (c : WriteCall) : Prop :=
  match c.phase with
  | .waiting => True
  | .asked ask => 0 < ask.chunkSize ∧ ask.want ≤ (c.arg.drop c.total).length
  | .sending batch chunkSize =>
    0 < chunkSize ∧ batch.granted ≤ (c.arg.drop c.total).length ∧
      WroteAt placed i batch.offset ((c.arg.drop c.total).take batch.granted)
  | .returned n error => n = c.total ∧ (n < c.arg.length → error ≠ none)

theorem Stands.append {placed : List (Nat × UInt8)} {i : Nat} {c : WriteCall}
    (stands : Stands placed i c) (more : List (Nat × UInt8)) : Stands (placed ++ more) i c := by
  unfold Stands at stands ⊢
  split at stands
  · trivial
  · exact stands
  · exact ⟨stands.1, stands.2.1, stands.2.2.append more⟩
  · exact stands

theorem sends_eq_false {c : WriteCall}
    (unbooked : ∀ batch chunkSize, c.phase ≠ .sending batch chunkSize) (x : Nat) :
    c.sends x = false := by
  unfold WriteCall.sends
  split
  · rename_i batch chunkSize phase
    exact absurd phase (unbooked batch chunkSize)
  · rfl

/-- A turned call has booked nothing, and asks for a SYN just while the stream is idle. -/
theorem Turned.stands {s : Stream} {c : WriteCall} {phase : WriteCall.Phase}
    (turned : Turned s c phase) (placed : List (Nat × UInt8)) (i : Nat) :
    Stands placed i ⟨c.arg, c.total, phase⟩ ∧
      (∀ batch chunkSize, phase ≠ .sending batch chunkSize) ∧
      ∀ ask, phase = .asked ask → s.state = .idle → ask.isSyn = true := by
  cases turned with
  | wait => exact ⟨trivial, nofun, nofun⟩
  | fail error => exact ⟨⟨rfl, fun _ => Option.some_ne_none _⟩, nofun, nofun⟩
  | head mtu =>
    unfold WriteCalls.head
    split
    · rename_i finished
      rw [List.length_drop] at finished
      exact ⟨⟨rfl, fun short => by dsimp only at short; omega⟩, nofun, nofun⟩
    · split
      · rename_i asked found
        obtain ⟨shape, -, within⟩ := s.writeAsk_eq_some found
        have base := mtu.base
        refine ⟨⟨?_, within⟩, nofun, fun ask same idle => ?_⟩
        · rw [shape]
          simp only [Stream.chunkSizeLocked, streamChunkOverhead, safeDatagramSize] at base ⊢
          omega
        · cases same
          rw [shape]
          exact decide_eq_true idle
      · split
        · exact ⟨⟨rfl, fun _ => Option.some_ne_none _⟩, nofun, nofun⟩
        · exact ⟨trivial, nofun, nofun⟩

theorem turned_enter (s : Stream) (mtu : MTUDiscovery) (arg : List UInt8) :
    ∃ phase, enter s mtu arg = ⟨arg, 0, phase⟩ ∧ Turned s ⟨arg, 0, .waiting⟩ phase := by
  unfold enter
  split
  · exact ⟨_, rfl, .fail _⟩
  · exact ⟨_, rfl, .head mtu⟩

/-- Every byte that is booked is in one frame or one batch on its way, and what a call
handed over is the front of its argument. -/
structure Booked (w : WriteCalls) : Prop where
  fits : w.stream.bytesWritten < 2 ^ 63
  length : w.placed.length = w.stream.bytesWritten
  once : ∀ x, w.emitted.countP (fun e => x ∈ e.frame.span) + w.calls.countP (WriteCall.sends x) =
    if x < w.stream.bytesWritten then 1 else 0
  emitted : ∀ e ∈ w.emitted, e.Carries w.placed
  numbered : ∀ e ∈ w.emitted, e.call < w.calls.length
  calls : ∀ i c, w.calls[i]? = some c → Stands w.placed i c ∧
    c.total ≤ c.arg.length ∧ output w.emitted i = c.arg.take c.total

theorem output_append (emitted out : List Emission) (i : Nat) :
    output (emitted ++ out) i = output emitted i ++ output out i := by
  rw [output, List.filter_append, List.flatMap_append]
  rfl

theorem output_other {out : List Emission} {j : Nat} (other : ∀ e ∈ out, e.call ≠ j) :
    output out j = [] := by
  have none : out.filter (fun e => e.call = j) = [] := by
    rw [List.filter_eq_nil_iff]
    exact fun e member same => other e member (of_decide_eq_true same)
  rw [output, none]
  rfl

/-- A call moves on: the stream books what it booked, `bytes` are placed and
`out` is handed over. -/
theorem Booked.replace {i : Nat} {c : WriteCall} {t : Stream} {total : Nat}
    {phase : WriteCall.Phase}
    {bytes : List (Nat × UInt8)} {out : List Emission} (booked : w.Booked)
    (found : w.calls[i]? = some c) (fits : t.bytesWritten < 2 ^ 63)
    (length : w.stream.bytesWritten + bytes.length = t.bytesWritten)
    (stands : Stands (w.placed ++ bytes) i ⟨c.arg, total, phase⟩)
    (sent : ∀ e ∈ out, e.Carries (w.placed ++ bytes)) (own : ∀ e ∈ out, e.call = i)
    (within : total ≤ c.arg.length)
    (carried : c.arg.take c.total ++ output out i = c.arg.take total)
    (balance : ∀ x, out.countP (fun e => x ∈ e.frame.span) +
        ((if (⟨c.arg, total, phase⟩ : WriteCall).sends x then 1 else 0) +
        (if x < w.stream.bytesWritten then 1 else 0)) =
      (if c.sends x then 1 else 0) + if x < t.bytesWritten then 1 else 0) :
    Booked {
      stream := t
      calls := w.calls.set i ⟨c.arg, total, phase⟩
      emitted := w.emitted ++ out
      placed := w.placed ++ bytes } := by
  obtain ⟨inside, here⟩ := List.getElem?_eq_some_iff.mp found
  obtain ⟨-, -, before⟩ := booked.calls i c found
  refine ⟨fits, ?_, fun x => ?_, fun e member => ?_, fun e member => ?_, fun j d at_j => ?_⟩
  · rw [List.length_append, booked.length, length]
  · have counted := booked.once x
    have moved := balance x
    have there : (if c.sends x then 1 else 0) ≤ w.calls.countP (WriteCall.sends x) := by
      split
      · rename_i sends
        exact List.countP_pos_iff.mpr ⟨c, List.mem_of_getElem? found, sends⟩
      · exact Nat.zero_le _
    dsimp only
    rw [List.countP_append, List.countP_set inside, here]
    omega
  · rcases List.mem_append.mp member with old | new
    · obtain ⟨plain, nonempty, short, wrote⟩ := booked.emitted e old
      exact ⟨plain, nonempty, short, wrote.append bytes⟩
    · exact sent e new
  · rw [List.length_set]
    rcases List.mem_append.mp member with old | new
    · exact booked.numbered e old
    · exact own e new ▸ inside
  · dsimp only at at_j ⊢
    rw [output_append]
    by_cases same : i = j
    · subst same
      rw [List.getElem?_set_self inside, Option.some.injEq] at at_j
      subst at_j
      exact ⟨stands, within, by rw [before]; exact carried⟩
    · rw [List.getElem?_set_ne same] at at_j
      obtain ⟨old, bound, mine⟩ := booked.calls j d at_j
      have silent := output_other fun e member => (own e member).trans_ne same
      exact ⟨old.append bytes, bound, by rw [silent, List.append_nil, mine]⟩

theorem Booked.turn {i : Nat} {c : WriteCall} {phase : WriteCall.Phase} (booked : w.Booked)
    (found : w.calls[i]? = some c) (unbooked : ∀ batch chunkSize, c.phase ≠ .sending batch chunkSize)
    (turned : Turned w.stream c phase) :
    Booked { w with calls := w.calls.set i ⟨c.arg, c.total, phase⟩ } := by
  have bound := (booked.calls i c found).2.1
  obtain ⟨stands, silent, -⟩ := turned.stands (w.placed ++ []) i
  have same : Booked {
      stream := w.stream
      calls := w.calls.set i ⟨c.arg, c.total, phase⟩
      emitted := w.emitted ++ []
      placed := w.placed ++ [] } := by
    refine booked.replace found booked.fits rfl stands (List.forall_mem_nil _)
      (List.forall_mem_nil _) bound (List.append_nil _) fun x => ?_
    rw [sends_eq_false unbooked x, sends_eq_false silent x, List.countP_nil, Nat.zero_add]
  simpa only [List.append_nil] using same

theorem Booked.write (booked : w.Booked) (mtu : MTUDiscovery) (arg : List UInt8) :
    Booked { w with calls := w.calls ++ [enter w.stream mtu arg] } := by
  obtain ⟨phase, shape, turned⟩ := turned_enter w.stream mtu arg
  obtain ⟨stands, silent, -⟩ := turned.stands w.placed w.calls.length
  have unheard : output w.emitted w.calls.length = [] :=
    output_other fun e member => Nat.ne_of_lt (booked.numbered e member)
  rw [shape]
  refine ⟨booked.fits, booked.length, fun x => ?_, booked.emitted, fun e member => ?_,
    fun i c found => ?_⟩
  · dsimp only
    rw [List.countP_append, List.countP_singleton, sends_eq_false silent x]
    exact booked.once x
  · rw [List.length_append]
    exact Nat.lt_add_right _ (booked.numbered e member)
  · dsimp only at found ⊢
    rw [List.getElem?_append] at found
    split at found
    · exact booked.calls i c found
    · rw [List.getElem?_singleton] at found
      split at found
      · obtain rfl : i = w.calls.length := by omega
        cases found
        exact ⟨stands, Nat.zero_le _, unheard⟩
      · cases found

theorem Booked.commit {i granted total : Nat} {arg : List UInt8} {ask : Stream.Ask} {t : Stream}
    {batch : Stream.Batch} (booked : w.Booked)
    (found : w.calls[i]? = some ⟨arg, total, .asked ask⟩) (range : granted ≤ ask.want)
    (committed : w.stream.writeCommit ask granted (arg.drop total).length = some (t, batch))
    (fits : t.bytesWritten < 2 ^ 63) :
    Booked { w with
      stream := t
      calls := w.calls.set i ⟨arg, total, .sending batch ask.chunkSize⟩
      placed := w.placed ++ ((arg.drop total).take batch.granted).map (Prod.mk i) } := by
  obtain ⟨-, within, shape, after⟩ := w.stream.writeCommit_eq_some committed
  obtain ⟨⟨positive, enough⟩, bound, -⟩ := booked.calls i _ found
  dsimp only at enough bound
  have offset : batch.offset = w.stream.bytesWritten := congrArg Stream.Batch.offset shape
  have written : t.bytesWritten = w.stream.bytesWritten + batch.granted := by rw [after]
  have length : ((arg.drop total).take batch.granted).length = batch.granted := by
    rw [List.length_take]
    omega
  have same : Booked {
      stream := t
      calls := w.calls.set i ⟨arg, total, .sending batch ask.chunkSize⟩
      emitted := w.emitted ++ []
      placed := w.placed ++ ((arg.drop total).take batch.granted).map (Prod.mk i) } := by
    refine booked.replace found fits ?_ ?_ (List.forall_mem_nil _) (List.forall_mem_nil _) bound
      (List.append_nil _) fun x => ?_
    · rw [List.length_map, length, written]
    · refine ⟨positive, by dsimp only; omega, ?_⟩
      rw [offset, ← booked.length]
      exact .of_append _ _
    · rw [List.countP_nil, written]
      simp only [WriteCall.sends, Span.mem_iff, offset, decide_eq_true_eq, Bool.false_eq_true,
        ↓reduceIte]
      repeat' split
      all_goals omega
  simpa only [List.append_nil] using same

theorem frame_of_mem_frames {batch : Stream.Batch} {chunkSize : Nat} {data : List UInt8}
    (positive : 0 < chunkSize) (small : batch.offset + (data.take batch.granted).length < 2 ^ 63)
    {sf : StreamFrame} (member : sf ∈ frames batch chunkSize data) :
    0 < sf.data.length ∧ sf.data.length ≤ chunkSize ∧
      ∃ front back, data.take batch.granted = front ++ (sf.data ++ back) ∧
        sf.offset.toNat = batch.offset + front.length ∧
        (sf.isSyn = true ↔ batch.isSyn = true ∧ front = []) := by
  have start : (UInt64.ofNat batch.offset).toNat = batch.offset :=
    UInt64.toNat_ofNat_of_lt' (by show _ < 2 ^ 64; omega)
  have whole := Chunks.flatten_chunks positive (data.take batch.granted)
  have part : sf.data ∈ Chunks.chunks chunkSize (data.take batch.granted) := by
    rw [← map_data_streamFrames false batch.isSyn (UInt64.ofNat batch.offset)
      (Chunks.chunks chunkSize (data.take batch.granted))]
    exact List.mem_map_of_mem member
  obtain ⟨nonempty, short⟩ := Chunks.length_of_mem_chunks positive part
  obtain ⟨front, back, cut, offset, -, syn, first⟩ :=
    cut_of_mem_streamFrames (by rw [whole, start]; omega) member
  rw [whole] at cut
  rw [start] at offset
  refine ⟨nonempty, short, front, back, cut, offset, syn, fun ⟨opens, empty⟩ => ?_⟩
  have full : ∀ part ∈ Chunks.chunks chunkSize (data.take batch.granted), part ≠ [] :=
    fun part member => List.ne_nil_of_length_pos (Chunks.length_of_mem_chunks positive member).1
  rw [first full empty, opens]

/-- Each byte of a batch is in one of its frames. -/
theorem countP_frames {batch : Stream.Batch} {chunkSize : Nat} {data : List UInt8}
    (positive : 0 < chunkSize) (enough : batch.granted ≤ data.length)
    (small : batch.offset + batch.granted < 2 ^ 63) (x : Nat) :
    (frames batch chunkSize data).countP (fun sf => x ∈ sf.span) =
      if x ∈ (⟨batch.offset, batch.offset + batch.granted⟩ : Span) then 1 else 0 := by
  have start : (UInt64.ofNat batch.offset).toNat = batch.offset :=
    UInt64.toNat_ofNat_of_lt' (by show _ < 2 ^ 64; omega)
  have sum := sum_length_chunks positive (data.take batch.granted)
  rw [List.length_take, Nat.min_eq_left enough] at sum
  have spans := map_span_streamFrames false batch.isSyn (UInt64.ofNat batch.offset)
    (Chunks.chunks chunkSize (data.take batch.granted)) (by rw [start, sum]; omega)
  have count := congrArg (List.countP fun s => decide (x ∈ s)) spans
  rw [List.countP_map, Span.countP_tile, sum, start] at count
  exact count

theorem output_frames {batch : Stream.Batch} {chunkSize : Nat} (positive : 0 < chunkSize)
    (data : List UInt8) (i : Nat) :
    output ((frames batch chunkSize data).map fun frame => ⟨i, chunkSize, frame⟩) i =
      data.take batch.granted := by
  have all : ((frames batch chunkSize data).map fun frame =>
      (⟨i, chunkSize, frame⟩ : Emission)).filter (fun e => e.call = i) =
      (frames batch chunkSize data).map fun frame => ⟨i, chunkSize, frame⟩ := by
    rw [List.filter_eq_self]
    intro e member
    obtain ⟨frame, -, rfl⟩ := List.mem_map.mp member
    exact decide_eq_true rfl
  rw [output, all, List.flatMap_map, List.flatMap_def, frames, map_data_streamFrames,
    Chunks.flatten_chunks positive]

theorem Booked.batch_lt {i total chunkSize : Nat} {arg : List UInt8} {batch : Stream.Batch}
    (booked : w.Booked) (found : w.calls[i]? = some ⟨arg, total, .sending batch chunkSize⟩) :
    batch.offset + ((arg.drop total).take batch.granted).length < 2 ^ 63 := by
  obtain ⟨⟨-, -, wrote⟩, -⟩ := booked.calls i _ found
  have within := wrote.within
  rw [List.length_map, booked.length] at within
  exact Nat.lt_of_le_of_lt within booked.fits

theorem Booked.send {i total chunkSize : Nat} {arg : List UInt8} {batch : Stream.Batch}
    (booked : w.Booked) (found : w.calls[i]? = some ⟨arg, total, .sending batch chunkSize⟩) :
    Booked { w with
      calls := w.calls.set i ⟨arg, total + batch.granted, .waiting⟩
      emitted := w.emitted ++
        (frames batch chunkSize (arg.drop total)).map fun frame => ⟨i, chunkSize, frame⟩ } := by
  obtain ⟨⟨positive, enough, wrote⟩, bound, -⟩ := booked.calls i _ found
  have small := booked.batch_lt found
  dsimp only at enough bound wrote
  have same : Booked {
      stream := w.stream
      calls := w.calls.set i ⟨arg, total + batch.granted, .waiting⟩
      emitted := w.emitted ++
        (frames batch chunkSize (arg.drop total)).map fun frame => ⟨i, chunkSize, frame⟩
      placed := w.placed ++ [] } := by
    refine booked.replace found booked.fits rfl trivial ?_ ?_ ?_ ?_ fun x => ?_
    · intro e member
      obtain ⟨frame, inside, rfl⟩ := List.mem_map.mp member
      obtain ⟨nonempty, short, front, back, cut, offset, -⟩ :=
        frame_of_mem_frames positive small inside
      rw [WroteAt, cut, List.map_append, List.map_append] at wrote
      refine ⟨isFin_streamFrames inside, nonempty, short, ?_⟩
      have here := wrote.right.left
      rw [List.length_map, ← offset] at here
      rw [List.append_nil]
      exact here
    · intro e member
      obtain ⟨frame, -, rfl⟩ := List.mem_map.mp member
      rfl
    · rw [List.length_drop] at enough
      dsimp only
      omega
    · rw [output_frames positive, ← List.take_add]
    · rw [List.length_take, Nat.min_eq_left enough] at small
      rw [List.countP_map]
      have count := countP_frames positive enough small x
      simp only [WriteCall.sends, Function.comp_def, decide_eq_true_eq, Bool.false_eq_true,
        ↓reduceIte] at count ⊢
      omega
  simpa only [List.append_nil] using same

theorem Booked.step {i : Step} (booked : w.Booked) (stepped : Stepped w i w')
    (fits : w'.stream.bytesWritten < 2 ^ 63) : w'.Booked := by
  cases stepped with
  | write arg mtu => exact booked.write mtu arg
  | turn found unbooked turned => exact booked.turn found unbooked turned
  | commit found range committed => exact booked.commit found range committed fits
  | send found => exact booked.send found
  | beneath under =>
    have same := under.bytesWritten
    exact ⟨fits, same ▸ booked.length, same ▸ booked.once, booked.emitted, booked.numbered,
      booked.calls⟩

theorem Booked.partition (booked : w.Booked) (none : w.NoneSending) (x : Nat) :
    w.emitted.countP (fun e => x ∈ e.frame.span) = if x < w.stream.bytesWritten then 1 else 0 := by
  have silent : w.calls.countP (WriteCall.sends x) = 0 := by
    rw [List.countP_eq_zero]
    intro c member sends
    rw [sends_eq_false (none c member)] at sends
    cases sends
  have once := booked.once x
  rwa [silent, Nat.add_zero] at once

-- The credit.

/-- The stream's counters agree and stay within the credit. -/
structure CreditAccounts (s : Stream) : Prop where
  fits : s.streamFC.maxStreamData < 2 ^ 63
  booked : (s.bytesWritten : Int) = s.streamFC.dataSent
  credit : s.streamFC.dataSent ≤ s.streamFC.maxStreamData

theorem CreditAccounts.bytesWritten_lt {s : Stream} (accounts : CreditAccounts s) :
    s.bytesWritten < 2 ^ 63 := by
  obtain ⟨fits, booked, credit⟩ := accounts
  omega

theorem CreditAccounts.beneath {s t : Stream} (accounts : CreditAccounts s) (under : Beneath s t) :
    CreditAccounts t := by
  obtain ⟨fits, booked, credit⟩ := accounts
  cases under with
  | same => exact ⟨fits, booked, credit⟩
  | reset => exact ⟨fits, booked, credit⟩
  | limit limit small =>
    have sent := s.streamFC.dataSent_updateMaxStreamData limit
    have raised := s.streamFC.maxStreamData_updateMaxStreamData limit
    refine ⟨?_, booked.trans sent.symm, ?_⟩
    · exact raised ▸ max_lt fits small
    · exact sent.le.trans (raised ▸ le_max_of_le_left credit)

/-- A committed batch has something in it, and no more than the peer admits. -/
theorem granted_of_writeCommit {s t : Stream} {ask : Stream.Ask} {granted remaining : Nat}
    {batch : Stream.Batch} (positive : 0 < ask.chunkSize)
    (committed : s.writeCommit ask granted remaining = some (t, batch)) :
    0 < batch.granted ∧ (batch.granted : Int) ≤ s.streamFC.sendWindowAvailable := by
  unfold Stream.writeCommit at committed
  split at committed
  · cases committed
  · have clamped : ((if s.streamFC.sendWindowAvailable < granted then
        s.streamFC.sendWindowAvailable.toNat else granted : Nat) : Int) ≤
        s.streamFC.sendWindowAvailable := by
      have : 0 ≤ s.streamFC.sendWindowAvailable := by
        simp only [StreamFlowController.sendWindowAvailable]
        split <;> omega
      split <;> omega
    dsimp only at committed
    generalize (if s.streamFC.sendWindowAvailable < granted then _ else _ : Nat) = whole
      at committed clamped
    split at committed
    · cases committed
    · cases committed
      dsimp only
      split
      · rename_i more
        have := Nat.mod_lt whole positive
        omega
      · omega

theorem CreditAccounts.step {i : Step} (accounts : CreditAccounts w.stream) (booked : w.Booked)
    (stepped : Stepped w i w') : CreditAccounts w'.stream := by
  cases stepped with
  | write | turn | send => exact accounts
  | beneath under => exact accounts.beneath under
  | commit found range committed =>
    obtain ⟨fits, counted, credit⟩ := accounts
    obtain ⟨-, -, -, after⟩ := w.stream.writeCommit_eq_some committed
    obtain ⟨⟨positive, -⟩, -⟩ := booked.calls _ _ found
    obtain ⟨-, room⟩ := granted_of_writeCommit positive committed
    rw [after]
    simp only [StreamFlowController.sendWindowAvailable] at room
    refine ⟨fits, ?_, ?_⟩
    · simp only [StreamFlowController.onDataSent]
      push_cast
      omega
    · simp only [StreamFlowController.onDataSent]
      split at room <;> omega

-- The SYN.

/-- A stream that began idle is so until its first batch is booked, which opens it. -/
structure Opening (begun : Prop) (w : WriteCalls) : Prop where
  idle : w.stream.state = .idle → begun ∧ w.stream.bytesWritten = 0
  opened : begun → w.stream.state ≠ .idle → w.stream.state = .reset ∨ 0 < w.stream.bytesWritten
  asked : ∀ c ∈ w.calls, ∀ ask, c.phase = .asked ask → w.stream.state = .idle → ask.isSyn = true
  sending : ∀ c ∈ w.calls, ∀ batch chunkSize, c.phase = .sending batch chunkSize →
    (batch.isSyn = true ↔ begun ∧ batch.offset = 0)
  emitted : ∀ e ∈ w.emitted, e.frame.isSyn = true ↔ begun ∧ e.frame.offset.toNat = 0

theorem Opening.commit {i granted total : Nat} {arg : List UInt8} {ask : Stream.Ask} {t : Stream}
    {batch : Stream.Batch} (opening : w.Opening begun) (booked : w.Booked)
    (found : w.calls[i]? = some ⟨arg, total, .asked ask⟩)
    (committed : w.stream.writeCommit ask granted (arg.drop total).length = some (t, batch)) :
    Opening begun { w with
      stream := t
      calls := w.calls.set i ⟨arg, total, .sending batch ask.chunkSize⟩
      placed := w.placed ++ ((arg.drop total).take batch.granted).map (Prod.mk i) } := by
  obtain ⟨idle, opened, asked, sending, emitted⟩ := opening
  obtain ⟨live, -, shape, after⟩ := w.stream.writeCommit_eq_some committed
  obtain ⟨⟨positive, -⟩, -⟩ := booked.calls i _ found
  obtain ⟨nonempty, -⟩ := granted_of_writeCommit positive committed
  have offset : batch.offset = w.stream.bytesWritten := congrArg Stream.Batch.offset shape
  have opens : batch.isSyn = true ↔ begun ∧ batch.offset = 0 := by
    have syn : batch.isSyn = (ask.isSyn && decide (w.stream.state = .idle)) :=
      congrArg Stream.Batch.isSyn shape
    rw [syn, offset, Bool.and_eq_true, decide_eq_true_eq]
    constructor
    · rintro ⟨-, state⟩
      exact idle state
    · rintro ⟨began, none⟩
      have state : w.stream.state = .idle := by
        by_contra moved
        rcases opened began moved with reset | some
        · exact live reset
        · omega
      exact ⟨asked _ (List.mem_of_getElem? found) ask rfl state, state⟩
  have moved : t.state ≠ .idle := by
    rw [after]
    dsimp only
    split
    · intro state
      cases state
    · rename_i plain
      intro state
      exact plain (opens.mpr ⟨(idle state).1, offset.trans (idle state).2⟩)
  have written : t.bytesWritten = w.stream.bytesWritten + batch.granted := by rw [after]
  refine ⟨fun state => absurd state moved, fun _ _ => .inr (by dsimp only; omega),
    fun _ _ _ _ state => absurd state moved, fun c member batch' chunkSize phase => ?_, emitted⟩
  rcases List.mem_or_eq_of_mem_set member with old | rfl
  · exact sending c old batch' chunkSize phase
  · cases phase
    exact opens

theorem Opening.send {i total chunkSize : Nat} {arg : List UInt8} {batch : Stream.Batch}
    (opening : w.Opening begun) (booked : w.Booked)
    (found : w.calls[i]? = some ⟨arg, total, .sending batch chunkSize⟩) :
    Opening begun { w with
      calls := w.calls.set i ⟨arg, total + batch.granted, .waiting⟩
      emitted := w.emitted ++
        (frames batch chunkSize (arg.drop total)).map fun frame => ⟨i, chunkSize, frame⟩ } := by
  obtain ⟨idle, opened, asked, sending, emitted⟩ := opening
  obtain ⟨⟨positive, -⟩, -⟩ := booked.calls i _ found
  have opens := sending _ (List.mem_of_getElem? found) batch chunkSize rfl
  refine ⟨idle, opened, fun c member ask phase => ?_, fun c member batch' chunkSize' phase => ?_,
    fun e member => ?_⟩
  · rcases List.mem_or_eq_of_mem_set member with old | rfl
    · exact asked c old ask phase
    · cases phase
  · rcases List.mem_or_eq_of_mem_set member with old | rfl
    · exact sending c old batch' chunkSize' phase
    · cases phase
  · rcases List.mem_append.mp member with old | new
    · exact emitted e old
    · obtain ⟨frame, inside, rfl⟩ := List.mem_map.mp new
      obtain ⟨-, -, front, back, -, offset, syn⟩ :=
        frame_of_mem_frames positive (booked.batch_lt found) inside
      dsimp only
      rw [syn, opens, offset, ← List.length_eq_zero_iff]
      constructor
      · rintro ⟨⟨began, first⟩, none⟩
        exact ⟨began, by omega⟩
      · rintro ⟨began, first⟩
        exact ⟨⟨began, by omega⟩, by omega⟩

theorem Opening.step {i : Step} (opening : w.Opening begun) (booked : w.Booked)
    (stepped : Stepped w i w') : w'.Opening begun := by
  cases stepped with
  | write arg mtu =>
    obtain ⟨idle, opened, asked, sending, emitted⟩ := opening
    obtain ⟨phase, shape, turned⟩ := turned_enter w.stream mtu arg
    obtain ⟨-, silent, syn⟩ := turned.stands w.placed 0
    rw [shape]
    refine ⟨idle, opened, fun c member => ?_, fun c member => ?_, emitted⟩
    · rcases List.mem_append.mp member with old | new
      · exact asked c old
      · obtain rfl := List.mem_singleton.mp new
        exact syn
    · rcases List.mem_append.mp member with old | new
      · exact sending c old
      · obtain rfl := List.mem_singleton.mp new
        exact fun batch chunkSize phase => absurd phase (silent batch chunkSize)
  | turn found unbooked turned =>
    obtain ⟨idle, opened, asked, sending, emitted⟩ := opening
    obtain ⟨-, silent, syn⟩ := turned.stands w.placed 0
    refine ⟨idle, opened, fun c member => ?_, fun c member => ?_, emitted⟩
    · rcases List.mem_or_eq_of_mem_set member with old | rfl
      · exact asked c old
      · exact syn
    · rcases List.mem_or_eq_of_mem_set member with old | rfl
      · exact sending c old
      · exact fun batch chunkSize phase => absurd phase (silent batch chunkSize)
  | commit found range committed => exact opening.commit booked found committed
  | send found => exact opening.send booked found
  | beneath under =>
    obtain ⟨idle, opened, asked, sending, emitted⟩ := opening
    cases under with
    | same | limit => exact ⟨idle, opened, asked, sending, emitted⟩
    | reset => exact ⟨nofun, fun _ _ => .inl rfl, nofun, sending, emitted⟩

/-- However `Write` calls interleave with each other and with window updates,
deadlines and resets, what goes out is what was written, each byte once and within
the credit, and each call returns how much of its argument went out. -/
theorem sendsWritten_of_run {s : Stream} (fresh : s.bytesWritten = 0)
    (unsent : s.streamFC.dataSent = 0)
    (credit : 0 ≤ s.streamFC.maxStreamData) (fits : s.streamFC.maxStreamData < 2 ^ 63)
    {steps : List Step} {w : WriteCalls}
    (reached : Runs.run WriteCalls.step { stream := s } steps = some w) :
    w.SendsWritten (s.state = .idle) := by
  have accounts : CreditAccounts s := by
    refine ⟨fits, ?_, unsent ▸ credit⟩
    rw [fresh, unsent]
    rfl
  have start : Booked { stream := s } :=
    ⟨accounts.bytesWritten_lt, fresh.symm, fun x => by simp [fresh], nofun, nofun, nofun⟩
  have opening : Opening (s.state = .idle) { stream := s } :=
    ⟨fun idle => ⟨idle, fresh⟩, fun idle moved => absurd idle moved, nofun, nofun, nofun⟩
  obtain ⟨accounts, booked, opening⟩ := Runs.invariant_of_forall
    (fun w => CreditAccounts w.stream ∧ w.Booked ∧ w.Opening (s.state = .idle))
    (fun w i w' ⟨accounts, booked, opening⟩ taken =>
      have stepped := stepped_of_step taken
      have next := accounts.step booked stepped
      ⟨next, booked.step stepped next.bytesWritten_lt, opening.step booked stepped⟩)
    ⟨accounts, start, opening⟩ reached
  refine ⟨accounts.booked, accounts.credit, booked.length, booked.once, booked.partition,
    booked.emitted, opening.emitted, fun i arg total n error found => ?_⟩
  obtain ⟨⟨same, short⟩, bound, carried⟩ := booked.calls i _ found
  dsimp only at same short bound carried
  rw [same] at short ⊢
  exact ⟨carried, bound, short⟩

/-- Two writers with credit for three bytes: the second books first, and the
first runs out of credit and time. -/
def shortOfCredit : List Step :=
  [.write [7, 8] newMTUDiscovery, .write [9, 10] newMTUDiscovery, .commit 1 2, .commit 0 2, .send 0,
    .resume 0 newMTUDiscovery, .expire 0, .send 1, .resume 1 newMTUDiscovery]

def threeBytes : Stream := newStream 1 0 (newStreamFlowController 3 initialMaxStreamData)

theorem sendsWritten_of_run_shortOfCredit :
    ∃ w, Runs.run WriteCalls.step { stream := threeBytes } shortOfCredit = some w ∧
      w.emitted.map (fun e => e.frame) = [⟨false, false, 2, [7]⟩, ⟨false, true, 0, [9, 10]⟩] ∧
      w.calls = [⟨[7, 8], 1, .returned 1 (some .deadlineExceeded)⟩,
        ⟨[9, 10], 2, .returned 2 none⟩] ∧ w.SendsWritten (threeBytes.state = .idle) := by
  obtain ⟨w, reached⟩ : ∃ w, Runs.run WriteCalls.step { stream := threeBytes } shortOfCredit = some w :=
    ⟨_, rfl⟩
  refine ⟨w, reached, ?_, ?_, sendsWritten_of_run rfl rfl (by decide) (by decide) reached⟩
  · cases reached
    rfl
  · cases reached
    rfl

end WriteCalls

end Udx

import Udx.FlowControl
import Udx.Lib.Bytes

set_option autoImplicit false

namespace Udx

/-- A limit within half the modulus of the reference survives its truncation. -/
theorem reconstructWindowOffset_ofInt {f reference : Int}
    (above : reference - 2 ^ 31 < f) (below : f < reference + 2 ^ 31) :
    reconstructWindowOffset (UInt32.ofInt f) reference = f := by
  simp only [reconstructWindowOffset, Bytes.toNat_ofInt, List.foldl_cons, List.foldl_nil]
  rw [windowOffsetModulus]
  split <;> split <;> omega

namespace StreamFlowController

variable (sfc : StreamFlowController)

theorem maxStreamData_updateMaxStreamData (limit : Int) :
    (sfc.updateMaxStreamData limit).maxStreamData = max sfc.maxStreamData limit := by
  rw [updateMaxStreamData]
  split
  · rename_i le
    exact (max_eq_left le).symm
  · rename_i above
    exact (max_eq_right (le_of_lt (not_le.mp above))).symm

theorem dataSent_updateMaxStreamData (limit : Int) :
    (sfc.updateMaxStreamData limit).dataSent = sfc.dataSent := by
  rw [updateMaxStreamData]
  split <;> rfl

theorem dataSent_applyWindowUpdate (wire : UInt32) :
    (sfc.applyWindowUpdate wire).dataSent = sfc.dataSent :=
  sfc.dataSent_updateMaxStreamData _

theorem le_applyWindowUpdate (wire : UInt32) :
    sfc.maxStreamData ≤ (sfc.applyWindowUpdate wire).maxStreamData := by
  rw [applyWindowUpdate, maxStreamData_updateMaxStreamData]
  exact le_max_left _ _

/-- An update never leaves the sender below the limit it carries. -/
theorem limit_le_applyWindowUpdate (limit : Int) (near : limit < sfc.maxStreamData + 2 ^ 31) :
    limit ≤ (sfc.applyWindowUpdate (UInt32.ofInt limit)).maxStreamData := by
  by_cases old : limit ≤ sfc.maxStreamData
  · exact le_trans old (sfc.le_applyWindowUpdate _)
  · rw [applyWindowUpdate, maxStreamData_updateMaxStreamData,
      reconstructWindowOffset_ofInt (by omega) near]
    exact le_max_right _ _

/-- What advertising a limit does to a receiver. -/
structure Advertised (result : StreamFlowController × Int) : Prop where
  recvd : result.1.dataRecvd = sfc.dataRecvd
  consumed : result.1.dataConsumed = sfc.dataConsumed
  grown : sfc.recvWindow ≤ result.1.recvWindow
  capped : result.1.recvWindow ≤ max sfc.recvWindow maxStreamRecvWindow
  last : result.1.lastAdvertised =
    max sfc.lastAdvertised (sfc.dataConsumed + result.1.recvWindow)
  limit : result.2 = result.1.lastAdvertised

theorem advertised_refreshLimit : Advertised sfc sfc.refreshLimit := by
  rw [refreshLimit, advertiseLocked]
  split
  · rename_i above
    exact ⟨rfl, rfl, le_refl _, le_max_left _ _, (max_eq_right (le_of_lt above)).symm, rfl⟩
  · rename_i within
    exact ⟨rfl, rfl, le_refl _, le_max_left _ _, (max_eq_left (not_lt.mp within)).symm, rfl⟩

theorem advertised_advertiseLimit (nonneg : 0 ≤ sfc.recvWindow) :
    Advertised sfc sfc.advertiseLimit := by
  rw [advertiseLimit]
  split
  · rename_i small
    have refreshed := advertised_refreshLimit
      { sfc with recvWindow := min (sfc.recvWindow * 2) maxStreamRecvWindow }
    obtain ⟨recvd, consumed, grown, capped, last, limit⟩ := refreshed
    refine ⟨recvd, consumed, le_trans ?_ grown, le_trans capped ?_, last, limit⟩
    · exact le_min (by omega) (le_of_lt small)
    · exact max_le (le_trans (min_le_right _ _) (le_max_right _ _)) (le_max_right _ _)
  · exact sfc.advertised_refreshLimit

theorem counters_advertiseLimit :
    sfc.advertiseLimit.1.dataRecvd = sfc.dataRecvd ∧
      sfc.advertiseLimit.1.dataConsumed = sfc.dataConsumed := by
  rw [advertiseLimit]
  split
  · have refreshed := advertised_refreshLimit
      { sfc with recvWindow := min (sfc.recvWindow * 2) maxStreamRecvWindow }
    exact ⟨refreshed.recvd, refreshed.consumed⟩
  · exact ⟨sfc.advertised_refreshLimit.recvd, sfc.advertised_refreshLimit.consumed⟩

end StreamFlowController

/-- A sending and a receiving controller, every limit a WINDOW_UPDATE ever
carried, and those that were never applied. -/
structure Credit where
  sender : StreamFlowController
  receiver : StreamFlowController
  emitted : List Int := []
  pending : List Int := []

namespace Credit

inductive Step where
  | send (n : Nat)
  | receive (n : Nat)
  | read (n : Nat)
  | blocked
  | apply (limit : Int)

def new (window : Int) : Credit :=
  { sender := newStreamFlowController window window
    receiver := newStreamFlowController window window }

def emit (s : Credit) (advertised : StreamFlowController × Int) : Credit :=
  { s with
    receiver := advertised.1
    emitted := advertised.2 :: s.emitted
    pending := advertised.2 :: s.pending }

def step (s : Credit) : Step → Option Credit
  | .send n =>
    if n ≤ s.sender.sendWindowAvailable then some { s with sender := s.sender.onDataSent n }
    else none
  | .receive n =>
    if s.receiver.dataRecvd + n ≤ s.sender.dataSent then
      some { s with receiver := s.receiver.onDataReceived n }
    else none
  | .read n =>
    if s.receiver.dataConsumed + n ≤ s.receiver.dataRecvd then
      let (receiver, update) := s.receiver.onDataConsumed n
      if update then some (s.emit receiver.advertiseLimit)
      else some { s with receiver := receiver }
    else none
  | .blocked => some (s.emit s.receiver.refreshLimit)
  | .apply limit =>
    if limit ∈ s.emitted then
      some { s with
        sender := s.sender.applyWindowUpdate (UInt32.ofInt limit)
        pending := s.pending.filter (· ≠ limit) }
    else none

inductive Stepped (s : Credit) : Step → Credit → Prop
  | send (n : Nat) (available : n ≤ s.sender.sendWindowAvailable) :
    Stepped s (.send n) { s with sender := s.sender.onDataSent n }
  | receive (n : Nat) (arrived : s.receiver.dataRecvd + n ≤ s.sender.dataSent) :
    Stepped s (.receive n) { s with receiver := s.receiver.onDataReceived n }
  | advertise (n : Nat) (held : s.receiver.dataConsumed + n ≤ s.receiver.dataRecvd) :
    Stepped s (.read n) (s.emit (s.receiver.onDataConsumed n).1.advertiseLimit)
  | consume (n : Nat) (held : s.receiver.dataConsumed + n ≤ s.receiver.dataRecvd)
    (enough : ¬ (s.receiver.onDataConsumed n).2 = true) :
    Stepped s (.read n) { s with receiver := (s.receiver.onDataConsumed n).1 }
  | blocked : Stepped s .blocked (s.emit s.receiver.refreshLimit)
  | apply (limit : Int) (member : limit ∈ s.emitted) :
    Stepped s (.apply limit)
      { s with
        sender := s.sender.applyWindowUpdate (UInt32.ofInt limit)
        pending := s.pending.filter (· ≠ limit) }

theorem stepped_of_step {s s' : Credit} {i : Step} (taken : s.step i = some s') :
    Stepped s i s' := by
  cases i with
  | send n =>
    obtain ⟨available, ⟨⟩⟩ := Option.ite_none_right_eq_some.mp taken
    exact .send n available
  | receive n =>
    obtain ⟨arrived, ⟨⟩⟩ := Option.ite_none_right_eq_some.mp taken
    exact .receive n arrived
  | read n =>
    obtain ⟨held, taken⟩ := Option.ite_none_right_eq_some.mp taken
    dsimp only at taken
    split at taken
    · cases taken
      exact .advertise n held
    · rename_i enough
      cases taken
      exact .consume n held enough
  | blocked =>
    cases taken
    exact .blocked
  | apply limit =>
    obtain ⟨member, ⟨⟩⟩ := Option.ite_none_right_eq_some.mp taken
    exact .apply limit member

/-- What holds of every run: the counters are ordered, and no limit is beyond
the last one advertised. -/
structure Ordered (s : Credit) : Prop where
  sent : s.sender.dataSent ≤ s.sender.maxStreamData
  recvd : s.receiver.dataRecvd ≤ s.sender.dataSent
  consumed : s.receiver.dataConsumed ≤ s.receiver.dataRecvd
  nonneg : 0 ≤ s.receiver.recvWindow
  window : s.receiver.recvWindow ≤ maxStreamRecvWindow
  advertised : s.receiver.lastAdvertised ≤ s.receiver.dataConsumed + s.receiver.recvWindow
  emitted : ∀ limit ∈ s.emitted, limit ≤ s.receiver.lastAdvertised

theorem ordered_new {window : Int} (nonneg : 0 ≤ window) (within : window ≤ maxStreamRecvWindow) :
    Ordered (new window) where
  sent := nonneg
  recvd := le_refl _
  consumed := le_refl _
  nonneg := nonneg
  window := within
  advertised := by simp [new, newStreamFlowController]
  emitted := by simp [new]

theorem Ordered.emit {s : Credit} {receiver : StreamFlowController}
    {result : StreamFlowController × Int} (ordered : Ordered { s with receiver := receiver })
    (advertised : receiver.Advertised result) : Ordered (s.emit result) := by
  obtain ⟨sent, recvd, consumed, nonneg, window, below, emitted⟩ := ordered
  obtain ⟨sameRecvd, sameConsumed, grown, capped, last, limit⟩ := advertised
  dsimp only at *
  rw [max_eq_right window] at capped
  refine ⟨sent, ?_, ?_, le_trans nonneg grown, capped, ?_, ?_⟩
  · exact sameRecvd.le.trans recvd
  · exact sameConsumed.le.trans (consumed.trans sameRecvd.ge)
  · change result.1.lastAdvertised ≤ result.1.dataConsumed + result.1.recvWindow
    rw [last, sameConsumed]
    exact max_le (by omega) (le_refl _)
  · intro other member
    change other ≤ result.1.lastAdvertised
    rcases List.mem_cons.mp member with rfl | old
    · exact limit.le
    · exact le_trans (emitted other old) (last ▸ le_max_left _ _)

theorem Ordered.step {s s' : Credit} {i : Step} (ordered : Ordered s) (taken : s.step i = some s') :
    Ordered s' := by
  obtain ⟨sent, recvd, consumed, nonneg, window, below, emitted⟩ := ordered
  have read {n : Nat} (held : s.receiver.dataConsumed + n ≤ s.receiver.dataRecvd) :
      Ordered { s with receiver := (s.receiver.onDataConsumed n).1 } := by
    refine ⟨sent, recvd, held, nonneg, window, ?_, emitted⟩
    simp only [StreamFlowController.onDataConsumed]
    omega
  cases stepped_of_step taken with
  | send n available =>
    refine ⟨?_, ?_, consumed, nonneg, window, below, emitted⟩
    · simp only [StreamFlowController.sendWindowAvailable] at available
      simp only [StreamFlowController.onDataSent]
      split at available <;> omega
    · simp only [StreamFlowController.onDataSent]
      omega
  | receive n arrived =>
    refine ⟨sent, arrived, ?_, nonneg, window, below, emitted⟩
    simp only [StreamFlowController.onDataReceived]
    omega
  | advertise n held => exact (read held).emit (StreamFlowController.advertised_advertiseLimit _ nonneg)
  | consume n held => exact read held
  | blocked =>
    have ordered : Ordered s := ⟨sent, recvd, consumed, nonneg, window, below, emitted⟩
    exact ordered.emit s.receiver.advertised_refreshLimit
  | apply limit =>
    refine ⟨?_, ?_, consumed, nonneg, window, below, emitted⟩
    · exact (s.sender.dataSent_applyWindowUpdate _).le.trans
        (sent.trans (s.sender.le_applyWindowUpdate _))
    · exact recvd.trans (s.sender.dataSent_applyWindowUpdate _).ge

/-- The sender holds no more than the receiver granted, and the receiver grants
no more than one window. -/
structure Granted (s : Credit) : Prop where
  sent : s.sender.dataSent ≤ s.sender.maxStreamData
  limit : s.sender.maxStreamData ≤ s.receiver.lastAdvertised
  advertised : s.receiver.lastAdvertised ≤ s.receiver.dataConsumed + s.receiver.recvWindow
  window : s.receiver.recvWindow ≤ maxStreamRecvWindow

/-- An update is applied before the sender's limit is half the modulus past
it. -/
def AppliedInTime (s : Credit) : Step → Prop
  | .apply limit => s.sender.maxStreamData < limit + 2 ^ 31
  | _ => True

instance (s : Credit) (i : Step) : Decidable (AppliedInTime s i) :=
  match i with
  | .apply limit => inferInstanceAs (Decidable (s.sender.maxStreamData < limit + 2 ^ 31))
  | .send _ | .receive _ | .read _ | .blocked => .isTrue trivial

theorem limit_step {s s' : Credit} {i : Step} (ordered : Ordered s) (inTime : AppliedInTime s i)
    (granted : s.sender.maxStreamData ≤ s.receiver.lastAdvertised) (taken : s.step i = some s') :
    s'.sender.maxStreamData ≤ s'.receiver.lastAdvertised := by
  cases stepped_of_step taken with
  | send | receive | consume => exact granted
  | advertise n =>
    have advertised := StreamFlowController.advertised_advertiseLimit
      (s.receiver.onDataConsumed n).1 ordered.nonneg
    exact granted.trans (advertised.last ▸ le_max_left _ _)
  | blocked => exact granted.trans (s.receiver.advertised_refreshLimit.last ▸ le_max_left _ _)
  | apply limit member =>
    obtain ⟨sent, recvd, consumed, nonneg, window, below, emitted⟩ := ordered
    have known := emitted limit member
    rw [AppliedInTime] at inTime
    rw [maxStreamRecvWindow] at window
    have exact : reconstructWindowOffset (UInt32.ofInt limit) s.sender.maxStreamData = limit :=
      reconstructWindowOffset_ofInt (by omega) (by omega)
    change (s.sender.applyWindowUpdate (UInt32.ofInt limit)).maxStreamData ≤ _
    rw [StreamFlowController.applyWindowUpdate, exact,
      StreamFlowController.maxStreamData_updateMaxStreamData]
    exact max_le granted known

theorem granted_of_appliedInTime {steps : List Step} {s : Credit}
    (inTime : Runs.Along step AppliedInTime (new initialMaxStreamData) steps)
    (reached : Runs.run step (new initialMaxStreamData) steps = some s) : Granted s := by
  have kept : Ordered s ∧ s.sender.maxStreamData ≤ s.receiver.lastAdvertised :=
    Runs.invariant (fun s => Ordered s ∧ s.sender.maxStreamData ≤ s.receiver.lastAdvertised)
      (fun s i s' inv inTime taken =>
        ⟨inv.1.step taken, limit_step inv.1 inTime inv.2 taken⟩)
      ⟨ordered_new (by decide) (by decide), le_refl _⟩ inTime reached
  exact ⟨kept.1.sent, kept.2, kept.1.advertised, kept.1.window⟩

/-- Rounds in which the sender uses its whole credit, the application reads it
all and the update for the next window is applied. -/
def rounds : Nat → Nat → Nat → List Step
  | 0, _, _ => []
  | k + 1, sent, window =>
    let next := min (window * 2) maxStreamRecvWindow
    [.send window, .receive window, .read window, .apply (sent + window + next : Nat)] ++
      rounds k (sent + window) next

/-- The first update again, after two gigabytes. -/
def staleUpdate : List Step := rounds 520 0 initialMaxStreamData ++ [.apply 196608]

theorem staleUpdate_overgrants :
    ∃ s, Runs.run step (new initialMaxStreamData) staleUpdate = some s ∧ ¬ Granted s := by
  have excess : (Runs.run step (new initialMaxStreamData) staleUpdate).any
      (fun s => s.receiver.lastAdvertised < s.sender.maxStreamData) = true := by
    decide +kernel
  obtain ⟨s, reached, beyond⟩ := Runs.reaches_of_any excess
  exact ⟨s, reached, fun granted => absurd granted.limit (not_le.mpr (of_decide_eq_true beyond))⟩

/-- One window used, read and granted again. -/
theorem granted_of_appliedInTime_round :
    Runs.Along step AppliedInTime (new initialMaxStreamData) (rounds 1 0 initialMaxStreamData) ∧
      ∃ s, Runs.run step (new initialMaxStreamData) (rounds 1 0 initialMaxStreamData) = some s ∧
        s.sender.dataSent = 65536 ∧ Granted s := by
  have inTime :
      Runs.Along step AppliedInTime (new initialMaxStreamData) (rounds 1 0 initialMaxStreamData) := by
    decide +kernel
  have sent : (Runs.run step (new initialMaxStreamData) (rounds 1 0 initialMaxStreamData)).any
      (fun s => s.sender.dataSent = 65536) = true := by
    decide +kernel
  obtain ⟨s, reached, all⟩ := Runs.reaches_of_any sent
  exact ⟨inTime, s, reached, of_decide_eq_true all, granted_of_appliedInTime inTime reached⟩

/-- What keeps a stream from wedging: the last advertisement leaves half a
window, and it has been applied or still can be. -/
structure NotWedged (s : Credit) : Prop where
  window : 2 ≤ s.receiver.recvWindow
  half : s.receiver.dataConsumed + s.receiver.recvWindow / 2 ≤ s.receiver.lastAdvertised
  known : s.receiver.lastAdvertised ≤ s.sender.maxStreamData ∨
    s.receiver.lastAdvertised ∈ s.pending

theorem live_emit {s : Credit} {receiver : StreamFlowController}
    {result : StreamFlowController × Int} (window : 2 ≤ receiver.recvWindow)
    (advertised : receiver.Advertised result) : NotWedged (s.emit result) := by
  obtain ⟨-, sameConsumed, grown, -, last, limit⟩ := advertised
  refine ⟨window.trans grown, ?_, Or.inr ?_⟩
  · change result.1.dataConsumed + result.1.recvWindow / 2 ≤ result.1.lastAdvertised
    rw [last, sameConsumed]
    exact le_trans (by omega) (le_max_right _ _)
  · exact limit ▸ List.mem_cons_self

theorem live_step {s s' : Credit} {i : Step} (ordered : Ordered s) (live : NotWedged s)
    (taken : s.step i = some s') : NotWedged s' := by
  obtain ⟨window, half, known⟩ := live
  cases stepped_of_step taken with
  | send | receive => exact ⟨window, half, known⟩
  | advertise n =>
    have advertised := StreamFlowController.advertised_advertiseLimit
      (s.receiver.onDataConsumed n).1 ordered.nonneg
    exact live_emit (show 2 ≤ (s.receiver.onDataConsumed n).1.recvWindow from window) advertised
  | consume n held enough =>
    simp only [StreamFlowController.onDataConsumed, decide_eq_true_eq, not_lt] at enough
    refine ⟨window, ?_, known⟩
    simp only [StreamFlowController.onDataConsumed]
    omega
  | blocked => exact live_emit window s.receiver.advertised_refreshLimit
  | apply limit member =>
    refine ⟨window, half, ?_⟩
    rcases known with granted | waiting
    · exact Or.inl (granted.trans (s.sender.le_applyWindowUpdate _))
    · by_cases this : s.receiver.lastAdvertised = limit
      · left
        change s.receiver.lastAdvertised ≤ _
        rw [this]
        apply s.sender.limit_le_applyWindowUpdate limit
        obtain ⟨sent, recvd, consumed, nonneg, capped, below, emitted⟩ := ordered
        have := emitted limit member
        rw [maxStreamRecvWindow] at capped
        omega
      · exact Or.inr (List.mem_filter.mpr ⟨waiting, decide_eq_true this⟩)

/-- Once everything sent has been consumed, the sender has credit if every
update was applied, and otherwise the answer to STREAM_DATA_BLOCKED gives it
some, without growing the window. -/
theorem canSend_of_consumed {window : Int} (atLeast : 2 ≤ window)
    (atMost : window ≤ maxStreamRecvWindow) {steps : List Step} {s : Credit}
    (reached : Runs.run step (new window) steps = some s)
    (drained : s.receiver.dataConsumed = s.sender.dataSent) :
    (s.pending = [] → s.sender.canSend 1 = true) ∧
      (s.sender.applyWindowUpdate (UInt32.ofInt s.receiver.refreshLimit.2)).canSend 1 = true ∧
      s.receiver.refreshLimit.1.recvWindow = s.receiver.recvWindow := by
  have kept : Ordered s ∧ NotWedged s :=
    Runs.invariant_of_forall (fun s => Ordered s ∧ NotWedged s)
      (fun s i s' inv taken => ⟨inv.1.step taken, live_step inv.1 inv.2 taken⟩)
      ⟨ordered_new (by omega) atMost, atLeast, by simp [new, newStreamFlowController]; omega,
        Or.inl (le_refl _)⟩ reached
  obtain ⟨⟨sent, recvd, consumed, nonneg, capped, below, emitted⟩, wide, half, known⟩ := kept
  have refreshed := s.receiver.advertised_refreshLimit
  have same : s.receiver.refreshLimit.1.recvWindow = s.receiver.recvWindow := by
    rw [StreamFlowController.refreshLimit, StreamFlowController.advertiseLocked]
    split <;> rfl
  refine ⟨fun none => ?_, ?_, same⟩
  · rw [none] at known
    have := known.resolve_right (List.not_mem_nil)
    simp only [StreamFlowController.canSend, decide_eq_true_eq]
    omega
  · have limit := refreshed.limit.trans refreshed.last
    rw [same, max_eq_right (by omega)] at limit
    rw [maxStreamRecvWindow] at capped
    have credit := s.sender.limit_le_applyWindowUpdate s.receiver.refreshLimit.2 (by omega)
    simp only [StreamFlowController.canSend, decide_eq_true_eq,
      StreamFlowController.dataSent_applyWindowUpdate]
    omega

/-- A window of four bytes, all sent and read, and the update lost. -/
theorem canSend_of_consumed_lost :
    (2 : Int) ≤ 4 ∧ (4 : Int) ≤ maxStreamRecvWindow ∧
      ∃ s, Runs.run step (new 4) [.send 4, .receive 4, .read 4] = some s ∧
        s.receiver.dataConsumed = s.sender.dataSent ∧ s.sender.canSend 1 = false ∧
        (s.sender.applyWindowUpdate (UInt32.ofInt s.receiver.refreshLimit.2)).canSend 1 = true := by
  have drained : (Runs.run step (new 4) [.send 4, .receive 4, .read 4]).any (fun s =>
      s.receiver.dataConsumed = s.sender.dataSent ∧ s.sender.canSend 1 = false) = true := by
    decide +kernel
  obtain ⟨s, reached, test⟩ := Runs.reaches_of_any drained
  obtain ⟨consumed, stuck⟩ := of_decide_eq_true test
  refine ⟨by decide, by decide, s, reached, consumed, stuck, ?_⟩
  exact (canSend_of_consumed (by decide) (by decide) reached consumed).2.1

end Credit

end Udx

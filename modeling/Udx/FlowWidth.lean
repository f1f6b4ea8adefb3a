import Udx.WindowOffset

set_option autoImplicit false

/- The flow control counters in the `int64` the source keeps them in, and that they
hold the exact values while a stream has carried less than 2^62 bytes. -/

namespace Udx

structure StreamFlowController64 where
  maxStreamData : Int64
  dataSent : Int64
  dataRecvd : Int64
  dataConsumed : Int64
  recvWindow : Int64
  lastAdvertised : Int64

namespace StreamFlowController64

variable (sfc : StreamFlowController64)

def canSend (n : Int64) : Bool := sfc.dataSent + n ≤ sfc.maxStreamData

def sendWindowAvailable : Int64 :=
  let avail := sfc.maxStreamData - sfc.dataSent
  if avail < 0 then 0 else avail

def onDataSent (n : Int64) : StreamFlowController64 :=
  { sfc with dataSent := sfc.dataSent + n }

def updateMaxStreamData (limit : Int64) : StreamFlowController64 :=
  if limit ≤ sfc.maxStreamData then sfc else { sfc with maxStreamData := limit }

def applyWindowUpdate (wire : UInt32) : StreamFlowController64 :=
  sfc.updateMaxStreamData (reconstructWindowOffset64 wire sfc.maxStreamData)

def onDataReceived (n : Int64) : StreamFlowController64 :=
  { sfc with dataRecvd := sfc.dataRecvd + n }

def onDataConsumed (n : Int64) : StreamFlowController64 × Bool :=
  let sfc := { sfc with dataConsumed := sfc.dataConsumed + n }
  (sfc, sfc.lastAdvertised - sfc.dataConsumed < sfc.recvWindow / 2)

def bufferedBytes : Int64 := sfc.dataRecvd - sfc.dataConsumed

def advertiseLocked : StreamFlowController64 × Int64 :=
  let limit := sfc.dataConsumed + sfc.recvWindow
  let sfc := if limit > sfc.lastAdvertised then { sfc with lastAdvertised := limit } else sfc
  (sfc, sfc.lastAdvertised)

def advertiseLimit : StreamFlowController64 × Int64 :=
  let cap := Int64.ofNat maxStreamRecvWindow
  let sfc :=
    if sfc.recvWindow < cap then
      let doubled := sfc.recvWindow * 2
      { sfc with recvWindow := if doubled > cap then cap else doubled }
    else sfc
  sfc.advertiseLocked

def refreshLimit : StreamFlowController64 × Int64 := sfc.advertiseLocked

/-- The numbers the words stand for. -/
def exact : StreamFlowController where
  maxStreamData := sfc.maxStreamData.toInt
  dataSent := sfc.dataSent.toInt
  dataRecvd := sfc.dataRecvd.toInt
  dataConsumed := sfc.dataConsumed.toInt
  recvWindow := sfc.recvWindow.toInt
  lastAdvertised := sfc.lastAdvertised.toInt

end StreamFlowController64

/-- A count of bytes that leaves room for as many again in 64 bits. -/
def FewBytes (z : Int) : Prop := 0 ≤ z ∧ z < 2 ^ 62

structure StreamFlowController.FewBytes (sfc : StreamFlowController) : Prop where
  maxStreamData : Udx.FewBytes sfc.maxStreamData
  dataSent : Udx.FewBytes sfc.dataSent
  dataRecvd : Udx.FewBytes sfc.dataRecvd
  dataConsumed : Udx.FewBytes sfc.dataConsumed
  recvWindow : Udx.FewBytes sfc.recvWindow
  lastAdvertised : Udx.FewBytes sfc.lastAdvertised

theorem FewBytes.toInt_add {a b : Int64} (first : FewBytes a.toInt) (second : FewBytes b.toInt) :
    (a + b).toInt = a.toInt + b.toInt := by
  obtain ⟨_, _⟩ := first
  obtain ⟨_, _⟩ := second
  exact toInt_add_of_fits (by omega) (by omega)

theorem FewBytes.toInt_sub {a b : Int64} (first : FewBytes a.toInt) (second : FewBytes b.toInt) :
    (a - b).toInt = a.toInt - b.toInt := by
  obtain ⟨_, _⟩ := first
  obtain ⟨_, _⟩ := second
  exact toInt_sub_of_fits (by omega) (by omega)

namespace StreamFlowController64

variable {sfc : StreamFlowController64} {n : Int64}

theorem canSend_eq (few : sfc.exact.FewBytes) (some : FewBytes n.toInt) :
    sfc.canSend n = sfc.exact.canSend n.toInt := by
  have sum := few.dataSent.toInt_add some
  refine decide_eq_decide.mpr ?_
  rw [Int64.le_iff_toInt_le, sum]
  rfl

theorem toInt_sendWindowAvailable (few : sfc.exact.FewBytes) :
    sfc.sendWindowAvailable.toInt = sfc.exact.sendWindowAvailable := by
  have difference := few.maxStreamData.toInt_sub few.dataSent
  have negative : sfc.maxStreamData - sfc.dataSent < 0 ↔
      sfc.exact.maxStreamData - sfc.exact.dataSent < 0 := by
    rw [Int64.lt_iff_toInt_lt, difference]
    rfl
  unfold sendWindowAvailable StreamFlowController.sendWindowAvailable
  simp only [negative]
  split
  · rfl
  · exact difference

theorem exact_onDataSent (few : sfc.exact.FewBytes) (some : FewBytes n.toInt) :
    (sfc.onDataSent n).exact = sfc.exact.onDataSent n.toInt :=
  congrArg (fun sent => { sfc.exact with dataSent := sent }) (few.dataSent.toInt_add some)

theorem exact_updateMaxStreamData (limit : Int64) :
    (sfc.updateMaxStreamData limit).exact = sfc.exact.updateMaxStreamData limit.toInt := by
  have old : limit ≤ sfc.maxStreamData ↔ limit.toInt ≤ sfc.exact.maxStreamData :=
    Int64.le_iff_toInt_le
  unfold updateMaxStreamData StreamFlowController.updateMaxStreamData
  simp only [old]
  split <;> rfl

theorem exact_applyWindowUpdate (few : sfc.exact.FewBytes) (wire : UInt32) :
    (sfc.applyWindowUpdate wire).exact = sfc.exact.applyWindowUpdate wire := by
  have limit := toInt_reconstructWindowOffset64 wire few.maxStreamData.1 few.maxStreamData.2
  rw [applyWindowUpdate, exact_updateMaxStreamData, limit]
  rfl

theorem exact_onDataReceived (few : sfc.exact.FewBytes) (some : FewBytes n.toInt) :
    (sfc.onDataReceived n).exact = sfc.exact.onDataReceived n.toInt :=
  congrArg (fun recvd => { sfc.exact with dataRecvd := recvd }) (few.dataRecvd.toInt_add some)

theorem toInt_bufferedBytes (few : sfc.exact.FewBytes) :
    sfc.bufferedBytes.toInt = sfc.exact.bufferedBytes :=
  few.dataRecvd.toInt_sub few.dataConsumed

/-- Halving rounds towards zero in the source, which is down for a window. -/
theorem exact_onDataConsumed (few : sfc.exact.FewBytes) (some : FewBytes n.toInt) :
    (sfc.onDataConsumed n).1.exact = (sfc.exact.onDataConsumed n.toInt).1 ∧
      (sfc.onDataConsumed n).2 = (sfc.exact.onDataConsumed n.toInt).2 := by
  have sum := few.dataConsumed.toInt_add some
  obtain ⟨_, _⟩ := few.dataConsumed
  obtain ⟨_, _⟩ := few.lastAdvertised
  obtain ⟨nonneg, _⟩ := few.recvWindow
  obtain ⟨_, _⟩ := some
  have remaining : (sfc.lastAdvertised - (sfc.dataConsumed + n)).toInt =
      sfc.lastAdvertised.toInt - (sfc.dataConsumed.toInt + n.toInt) := by
    rw [← sum]
    exact toInt_sub_of_fits (by rw [sum]; simp only [exact] at *; omega)
      (by rw [sum]; simp only [exact] at *; omega)
  have half : (sfc.recvWindow / 2).toInt = sfc.recvWindow.toInt / 2 := by
    rw [Int64.toInt_div_of_ne_right _ _ (by decide)]
    exact Int.tdiv_eq_ediv_of_nonneg nonneg
  refine ⟨congrArg (fun consumed => { sfc.exact with dataConsumed := consumed }) sum,
    decide_eq_decide.mpr ?_⟩
  rw [Int64.lt_iff_toInt_lt]
  dsimp only
  rw [remaining, half]
  rfl

theorem exact_advertiseLocked (few : sfc.exact.FewBytes) :
    sfc.advertiseLocked.1.exact = sfc.exact.advertiseLocked.1 ∧
      sfc.advertiseLocked.2.toInt = sfc.exact.advertiseLocked.2 := by
  have sum := few.dataConsumed.toInt_add few.recvWindow
  have beyond : sfc.dataConsumed + sfc.recvWindow > sfc.lastAdvertised ↔
      sfc.exact.dataConsumed + sfc.exact.recvWindow > sfc.exact.lastAdvertised := by
    rw [gt_iff_lt, Int64.lt_iff_toInt_lt, sum]
    rfl
  unfold advertiseLocked StreamFlowController.advertiseLocked
  simp only [beyond]
  split
  · exact ⟨congrArg (fun limit => { sfc.exact with lastAdvertised := limit }) sum, sum⟩
  · exact ⟨rfl, rfl⟩

theorem exact_advertiseLimit (few : sfc.exact.FewBytes) :
    sfc.advertiseLimit.1.exact = sfc.exact.advertiseLimit.1 ∧
      sfc.advertiseLimit.2.toInt = sfc.exact.advertiseLimit.2 := by
  have cap : (Int64.ofNat maxStreamRecvWindow).toInt = maxStreamRecvWindow := by decide
  obtain ⟨nonneg, small⟩ := few.recvWindow
  have doubled : (sfc.recvWindow * 2).toInt = sfc.exact.recvWindow * 2 := by
    have two : (2 : Int64).toInt = 2 := by decide
    rw [Int64.toInt_mul, two]
    exact Int.bmod_eq_of_le_mul_two (by simp only [exact] at *; omega) (by simp only [exact] at *; omega)
  have below : sfc.recvWindow < Int64.ofNat maxStreamRecvWindow ↔
      sfc.exact.recvWindow < maxStreamRecvWindow := by
    rw [Int64.lt_iff_toInt_lt, cap]
    rfl
  unfold advertiseLimit StreamFlowController.advertiseLimit
  simp only [below]
  split
  · have grown : (if sfc.recvWindow * 2 > Int64.ofNat maxStreamRecvWindow then
        Int64.ofNat maxStreamRecvWindow else sfc.recvWindow * 2).toInt =
        min (sfc.exact.recvWindow * 2) maxStreamRecvWindow := by
      have past : sfc.recvWindow * 2 > Int64.ofNat maxStreamRecvWindow ↔
          sfc.exact.recvWindow * 2 > maxStreamRecvWindow := by
        rw [gt_iff_lt, Int64.lt_iff_toInt_lt, cap, doubled]
      simp only [past]
      split
      · rw [cap]
        omega
      · rw [doubled]
        omega
    generalize (if sfc.recvWindow * 2 > Int64.ofNat maxStreamRecvWindow then
        Int64.ofNat maxStreamRecvWindow else sfc.recvWindow * 2) = window at grown
    have wider : StreamFlowController.FewBytes { sfc with recvWindow := window }.exact := by
      refine { few with recvWindow := ?_ }
      show FewBytes window.toInt
      rw [grown]
      exact ⟨by omega, by rw [maxStreamRecvWindow]; omega⟩
    have advertised := exact_advertiseLocked wider
    have shape : { sfc with recvWindow := window }.exact =
        { sfc.exact with recvWindow := min (sfc.exact.recvWindow * 2) maxStreamRecvWindow } :=
      congrArg (fun window => { sfc.exact with recvWindow := window }) grown
    rwa [shape] at advertised
  · exact exact_advertiseLocked few

end StreamFlowController64

/-- What the connection does to a stream's counters. -/
inductive CounterOp where
  | onDataSent (n : Int64)
  | applyWindowUpdate (wire : UInt32)
  | onDataReceived (n : Int64)
  | onDataConsumed (n : Int64)
  | advertiseLimit
  | refreshLimit

namespace CounterOp

def apply (sfc : StreamFlowController) : CounterOp → StreamFlowController
  | onDataSent n => sfc.onDataSent n.toInt
  | applyWindowUpdate wire => sfc.applyWindowUpdate wire
  | onDataReceived n => sfc.onDataReceived n.toInt
  | onDataConsumed n => (sfc.onDataConsumed n.toInt).1
  | advertiseLimit => sfc.advertiseLimit.1
  | refreshLimit => sfc.refreshLimit.1

def apply64 (sfc : StreamFlowController64) : CounterOp → StreamFlowController64
  | onDataSent n => sfc.onDataSent n
  | applyWindowUpdate wire => sfc.applyWindowUpdate wire
  | onDataReceived n => sfc.onDataReceived n
  | onDataConsumed n => (sfc.onDataConsumed n).1
  | advertiseLimit => sfc.advertiseLimit.1
  | refreshLimit => sfc.refreshLimit.1

/-- What it counts, if anything. -/
def bytes : CounterOp → Int64
  | onDataSent n | onDataReceived n | onDataConsumed n => n
  | _ => 0

theorem exact_apply64 {sfc : StreamFlowController64} {op : CounterOp} (few : sfc.exact.FewBytes)
    (counts : FewBytes op.bytes.toInt) : (apply64 sfc op).exact = apply sfc.exact op := by
  cases op with
  | onDataSent n => exact StreamFlowController64.exact_onDataSent few counts
  | applyWindowUpdate wire => exact StreamFlowController64.exact_applyWindowUpdate few wire
  | onDataReceived n => exact StreamFlowController64.exact_onDataReceived few counts
  | onDataConsumed n => exact (StreamFlowController64.exact_onDataConsumed few counts).1
  | advertiseLimit => exact (StreamFlowController64.exact_advertiseLimit few).1
  | refreshLimit => exact (StreamFlowController64.exact_advertiseLocked few).1

/-- The words hold the exact counters for as long as those are below 2^62. -/
theorem exact_foldl_apply64 {ops : List CounterOp} {sfc : StreamFlowController64}
    (few : ∀ k < ops.length, ((ops.take k).foldl apply sfc.exact).FewBytes)
    (counts : ∀ op ∈ ops, FewBytes op.bytes.toInt) :
    (ops.foldl apply64 sfc).exact = ops.foldl apply sfc.exact := by
  induction ops generalizing sfc with
  | nil => rfl
  | cons op rest ih =>
    have step := exact_apply64 (few 0 (Nat.zero_lt_succ _)) (counts op List.mem_cons_self)
    rw [List.foldl_cons, List.foldl_cons, ← step]
    refine ih (fun k inside => ?_) fun op member => counts op (List.mem_cons_of_mem _ member)
    rw [step]
    exact few (k + 1) (Nat.succ_lt_succ inside)

end CounterOp

end Udx

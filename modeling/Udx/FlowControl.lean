import Mathlib.Tactic.Linarith
import Udx.Constants
import Udx.Lib.Runs

set_option autoImplicit false

namespace Udx

/- Flow control. The counters are cumulative byte offsets, exact here; the source
holds them in 64 bits. -/

/-- The connection's limit, which the peer raises and nothing on the send path
consults. -/
structure FlowController where
  connMaxData : Int
deriving DecidableEq

def FlowController.updateMaxData (fc : FlowController) (maxData : Int) : FlowController :=
  if maxData > fc.connMaxData then { fc with connMaxData := maxData } else fc

def windowOffsetModulus : Int := 2 ^ 32

/-- The offset nearest `reference` that the wire value can stand for. -/
def reconstructWindowOffset (wire : UInt32) (reference : Int) : Int :=
  let base := reference - reference % windowOffsetModulus
  let nearer (best cand : Int) : Int :=
    if (cand - reference).natAbs < (best - reference).natAbs then cand else best
  let best := base + wire.toNat
  [best - windowOffsetModulus, best + windowOffsetModulus].foldl nearer best

structure StreamFlowController where
  maxStreamData : Int
  dataSent : Int := 0
  dataRecvd : Int := 0
  dataConsumed : Int := 0
  recvWindow : Int
  lastAdvertised : Int
deriving DecidableEq

def newStreamFlowController (initialMaxStreamData recvWindow : Int) : StreamFlowController :=
  { maxStreamData := initialMaxStreamData, recvWindow := recvWindow, lastAdvertised := recvWindow }

/-- What a connection gives each of its streams. -/
def initialFC : StreamFlowController :=
  newStreamFlowController initialMaxStreamData initialMaxStreamData

namespace StreamFlowController

variable (sfc : StreamFlowController)

def canSend (n : Int) : Bool := sfc.dataSent + n ≤ sfc.maxStreamData

def sendWindowAvailable : Int :=
  let avail := sfc.maxStreamData - sfc.dataSent
  if avail < 0 then 0 else avail

def onDataSent (n : Int) : StreamFlowController :=
  { sfc with dataSent := sfc.dataSent + n }

/-- Limits only grow. -/
def updateMaxStreamData (limit : Int) : StreamFlowController :=
  if limit ≤ sfc.maxStreamData then sfc else { sfc with maxStreamData := limit }

def applyWindowUpdate (wire : UInt32) : StreamFlowController :=
  sfc.updateMaxStreamData (reconstructWindowOffset wire sfc.maxStreamData)

def onDataReceived (n : Int) : StreamFlowController :=
  { sfc with dataRecvd := sfc.dataRecvd + n }

/-- Records consumption, and whether the peer's remaining credit fell below
half the window. -/
def onDataConsumed (n : Int) : StreamFlowController × Bool :=
  let sfc := { sfc with dataConsumed := sfc.dataConsumed + n }
  (sfc, sfc.lastAdvertised - sfc.dataConsumed < sfc.recvWindow / 2)

/-- Bytes received and not yet consumed by the application. -/
def bufferedBytes : Int := sfc.dataRecvd - sfc.dataConsumed

def advertiseLocked : StreamFlowController × Int :=
  let limit := sfc.dataConsumed + sfc.recvWindow
  let sfc := if limit > sfc.lastAdvertised then { sfc with lastAdvertised := limit } else sfc
  (sfc, sfc.lastAdvertised)

/-- Doubles the window up to its cap and advertises. -/
def advertiseLimit : StreamFlowController × Int :=
  let sfc :=
    if sfc.recvWindow < maxStreamRecvWindow then
      { sfc with recvWindow := min (sfc.recvWindow * 2) maxStreamRecvWindow }
    else sfc
  sfc.advertiseLocked

/-- Advertises without growing the window. -/
def refreshLimit : StreamFlowController × Int := sfc.advertiseLocked

end StreamFlowController

end Udx

import Mathlib.Data.Nat.Notation

set_option autoImplicit false

namespace Udx

/- Transport parameters and the limits of the wire format. Times are counted
in nanoseconds, as `time.Duration` counts them. -/

def initialMaxData : Nat := 1024 * 1024
def initialMaxStreamData : Nat := 65536
def maxStreamRecvWindow : Nat := 4 * 1024 * 1024
def maxStreamRecvOOO : Nat := 2 * maxStreamRecvWindow
def initialMaxStreams : Nat := 100

def ackElicitingThreshold : Nat := 2
def ackHistory : Nat := 512
def sendBatchMax : Nat := 16
def inboundQueue : Nat := 512

def millisecond : Int := 1000000
def second : Int := 1000 * millisecond
def minAckDelay : Int := millisecond
def maxAckDelay : Int := 25 * millisecond
def initialRTT : Int := 333 * millisecond
def initialRTTVar : Int := initialRTT / 2

def streamBlockedRetryInterval : Int := 500 * millisecond

def maxIdleTimeout : Int := 30 * second
def pathChallengeRetry : Int := second

def safeDatagramSize : Nat := 1200
def maxDatagramSize : Nat := 1472
def minCwnd : Int := 2 * maxDatagramSize
def initialCwnd : Int := 10 * maxDatagramSize
def persistentCongestionThreshold : Int := 3

def mtuProbeTries : Nat := 3
def mtuSearchStep : Nat := 16
def blackholePackets : Nat := 3
def blackholePTOs : Nat := 3
def blackholeRetry : Int := 60 * second

def ptoProbes : Nat := 2
def lossReorderThreshold : Int := 3
def lossTimeThresholdNumerator : Int := 9
def lossTimeThresholdDenominator : Int := 8
def lossTimerGranularity : Int := millisecond

def amplificationFactor : Nat := 3
def pacingBurstPackets : Nat := 10
def minPacingDelay : Int := millisecond
def streamChunkOverhead : Nat := 100

def defaultCIDLength : Nat := 8
def minCIDLength : Nat := 0
def maxCIDLength : Nat := 20
def statelessResetTokenLength : Nat := 16
def versionV1 : UInt32 := 1
def versionV2 : UInt32 := 2
def versionV3 : UInt32 := 3
def versionCurrent : UInt32 := 3

def errorNoError : UInt32 := 0x00
def errorFlowControlError : UInt32 := 0x03
def errorConnectionTimeout : UInt32 := 0x06

end Udx

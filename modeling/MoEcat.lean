import MoEcat.AdapterGuard
import MoEcat.RollbackToInit
import MoEcat.EmergencyLatch
import MoEcat.BusConfirmation
import MoEcat.ProcessDataFlow
import MoEcat.IdentityGate
import MoEcat.SdoRequests
import MoEcat.ImageIsolation
import MoEcat.NodeMirror
import MoEcat.RefusedCalls
import MoEcat.StateCallbacks
import MoEcat.CycleStatistics
import MoEcat.FailureReactions
import MoEcat.AsyncLogger
import MoEcat.SiiStrings
import MoEcat.ObjectLists
import MoEcat.StateRequests
import MoEcat.Setpoints
import MoEcat.CycleTimes
import MoEcat.NodeBuffers
import MoEcat.CommandRuns
import MoEcat.ParamCommand
import MoEcat.SdoAnswers
import MoEcat.ServoCodec
import MoEcat.SiiChecksum
import MoEcat.DriveExchange
import MoEcat.CooperativeRuns
import MoEcat.WaitingTimes
import MoEcat.DiagnosticActivities
import MoEcat.SiiHead
import MoEcat.CyclicRunner
import MoEcat.LoggerEnd
import MoEcat.MasterCalls
import MoEcat.AxisCalls

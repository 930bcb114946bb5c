import LinuxPrograming.SemaphoreSafetyProofs
import LinuxPrograming.SemaphoreSerialProofs
import LinuxPrograming.SemaphoreSoloProofs
import LinuxPrograming.ByteStreamProofs
import LinuxPrograming.StreamServerProofs
import LinuxPrograming.CmnBaseProofs
import LinuxPrograming.FdTableProofs
import LinuxPrograming.HandoffProofs
import LinuxPrograming.StreamClientProofs
import LinuxPrograming.PipeProofs
import LinuxPrograming.DispatcherProofs
import LinuxPrograming.PriorityQueueProofs
import LinuxPrograming.WorkerProofs
import LinuxPrograming.ThreadMainProofs
import LinuxPrograming.SignalCountProofs
import LinuxPrograming.InPlaceProofs
import LinuxPrograming.StrReverseProofs
import LinuxPrograming.StrTrimProofs
import LinuxPrograming.StrToIntProofs
import LinuxPrograming.WorkerBufferProofs
import LinuxPrograming.SemaphoreProgressProofs
import LinuxPrograming.SemaphoreIdProofs
import LinuxPrograming.RestaurantMainProofs
import LinuxPrograming.DatagramProofs
import LinuxPrograming.UpperCaseProofs
import LinuxPrograming.LineProofs
import LinuxPrograming.SignalFdProofs
import LinuxPrograming.CounterProofs
import LinuxPrograming.HandoffWakeProofs
import LinuxPrograming.StreamOrderProofs
import LinuxPrograming.ReadWriteProofs
import LinuxPrograming.StrInPlaceProofs
import LinuxPrograming.WorkerShutdownProofs
import LinuxPrograming.CommandProofs
import LinuxPrograming.BlockProofs
import LinuxPrograming.LogLineProofs
import LinuxPrograming.ShareMemoryProofs
import LinuxPrograming.NamedObjectProofs
import LinuxPrograming.RestaurantTrayProofs
import LinuxPrograming.PipeFlowProofs
import LinuxPrograming.UpperCaseAnswerProofs
import LinuxPrograming.CounterProgressProofs
import LinuxPrograming.ReadWriteProgressProofs
import LinuxPrograming.SignalFdProgressProofs
import LinuxPrograming.HandoffProgressProofs
import LinuxPrograming.StrMainProofs
import LinuxPrograming.WorkerProgressProofs
import LinuxPrograming.GreetingProgressProofs
import LinuxPrograming.SignalCountProgressProofs

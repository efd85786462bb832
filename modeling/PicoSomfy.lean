import PicoSomfy.Transitions
import PicoSomfy.BlockMap
import PicoSomfy.CStrings
import PicoSomfy.BlockCuts
import PicoSomfy.MqttDelivery
import PicoSomfy.ReceiveRing
import PicoSomfy.OverheardPresses
import PicoSomfy.PressFrames
import PicoSomfy.Shutdown
import PicoSomfy.DeviceRuns
import PicoSomfy.SomfyFrame
import PicoSomfy.StateReports
import PicoSomfy.Republish
import PicoSomfy.Answers
import PicoSomfy.CleanRecords
import PicoSomfy.IssuedIds
import PicoSomfy.PowerCuts
import PicoSomfy.StorageCapacity
import PicoSomfy.MultiPageBlocks
import PicoSomfy.MotionCommands
import PicoSomfy.MotionInvariant
import PicoSomfy.PositionRuns
import PicoSomfy.RequestCalls
import PicoSomfy.TravelTimes
import PicoSomfy.NamesFit
import PicoSomfy.LongBlocks
import PicoSomfy.IdListLimits
import PicoSomfy.JsonText
import PicoSomfy.JsonSpelling
import PicoSomfy.BufferOutput
import PicoSomfy.ListResponses
import PicoSomfy.ListReports
import PicoSomfy.OutputBuffers
import PicoSomfy.UrlDecode
import PicoSomfy.DiscoveryTopics
import PicoSomfy.GapSweep
import PicoSomfy.SectorReclaim
import PicoSomfy.JsonSpace
import PicoSomfy.ConfigReports
import PicoSomfy.GracefulRestart
import PicoSomfy.PressCalls
import PicoSomfy.RollingCodes
import PicoSomfy.SentCommands
import PicoSomfy.DhcpLeases
import PicoSomfy.DnsReplies
import PicoSomfy.RadioWorker
import PicoSomfy.TopicRuns

import Lopack.FailedCalls
import Lopack.LostMessages
import Lopack.SendablePackets
import Lopack.Senders
import Lopack.SenderMemory
import Lopack.SenderRecovery
import Lopack.MidiRelay
import Lopack.BundleTimeTags
import Lopack.BundleOpenings
import Lopack.DispatchTermination
import Lopack.ReentrancySafety
import Lopack.ReentrancyTermination
import Lopack.ObjectRemoval
import Lopack.ServerRelease
import Lopack.SenderToReceiver
import Lopack.MessageReferences
import Lopack.IntegerReads
import Lopack.GuardedReads
import Lopack.TimeTagAdd

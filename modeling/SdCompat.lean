import SdCompat.Basic.CellEscape
import SdCompat.Basic.ChaseRenames
import SdCompat.Basic.HashmapScan
import SdCompat.Basic.PackFds
import SdCompat.Basic.PrioqRun
import SdCompat.Basic.RearrangeStdio
import SdCompat.Basic.Utf8Valid
import SdCompat.SdBus.AddressList
import SdCompat.SdBus.AuthClient
import SdCompat.SdBus.AuthStream
import SdCompat.SdBus.MatchAlloc
import SdCompat.SdBus.MatchPatterns
import SdCompat.SdBus.MatchRules
import SdCompat.SdBus.MessageAtomic
import SdCompat.SdBus.MessageCopied
import SdCompat.SdBus.MessageRemarshal
import SdCompat.SdBus.MessageSkip
import SdCompat.SdBus.ObjectsChanged
import SdCompat.SdBus.ObjectsManaged
import SdCompat.SdBus.PathMany
import SdCompat.SdBus.ReplyTimeouts
import SdCompat.SdBus.SignatureGrammar
import SdCompat.SdBus.SocketFds
import SdCompat.SdBus.Track
import SdCompat.SdDaemon.Notify
import SdCompat.SdEvent.BookkeepingRun
import SdCompat.SdEvent.RateLimit
import SdCompat.SdEvent.SleepBetween
import SdCompat.SdFuture.Await
import SdCompat.SdFuture.FiberIo
import SdCompat.SdFuture.FiberPoll
import SdCompat.SdFuture.FiberRun
import SdCompat.SdFuture.Lifecycle
import SdCompat.SdFuture.LoopIo
import SdCompat.SdJson.RoundTrip
import SdCompat.SdJson.StreamFlush
import SdCompat.SdJson.StreamFraming
import SdCompat.SdJson.VariantRun
import SdCompat.SdVarlink.ReplyMatching
import SdCompat.SdVarlink.ServerAccounting
import SdCompat.SdVarlink.StateMachine
import SdCompat.SdEvent.RateLimitBelow

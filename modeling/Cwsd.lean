import Cwsd.MorseStream
import Cwsd.CwdaemonServer
import Cwsd.UdpBuffer
import Cwsd.WinkeyerFeed
import Cwsd.KeyLine
import Cwsd.KeyRelease
import Cwsd.KeyerTransmit
import Cwsd.ElementTimings
import Cwsd.LetterSpacing
import Cwsd.TickKeying
import Cwsd.RemoteKeyWire
import Cwsd.RemoteKeyServer
import Cwsd.RemoteKeySafety
import Cwsd.RemoteKeyShutdown
import Cwsd.RemoteKeyThreads
import Cwsd.RemoteKeyStream
import Cwsd.RemoteKeySilence
import Cwsd.RemoteKeySessions
import Cwsd.HighWater
import Cwsd.RemoteKeyKeying
import Cwsd.RemoteKeyLink
import Cwsd.RemoteKeyPort
import Cwsd.RemoteKeyPresence
import Cwsd.RemoteKeyPlayout
import Cwsd.RemoteKeyOrder
import Cwsd.RemoteKeyLate
import Cwsd.RemoteKeySpacing
import Cwsd.RemoteKeyLead
import Cwsd.RemoteKeyChatter
import Cwsd.RemoteKeySleep
import Cwsd.RemoteKeyFence
import Cwsd.Effects
import Cwsd.StringUtil
import Cwsd.RigctldServer
import Cwsd.RigctldSafety
import Cwsd.RigctldReplies
import Cwsd.RigctldClients
import Cwsd.RigctldWork
import Cwsd.RigctldPoll
import Cwsd.RigctldLines
import Cwsd.RigctldHandle
import Cwsd.RigctldStreams
import Cwsd.RigctldSessions
import Cwsd.RigctldResponses
import Cwsd.Wraparound
import Cwsd.Deadlines
import Cwsd.WinkeyerEffects
import Cwsd.MessageEffects
import Cwsd.ServiceMorse
import Cwsd.ServiceSteps
import Cwsd.InlineSpeed
import Cwsd.NonzeroSpeeds
import Cwsd.TextScan
import Cwsd.TextFrames
import Cwsd.TextTargets
import Cwsd.TextSaturation
import Cwsd.BufferRoom
import Cwsd.Abort
import Cwsd.FrameBoundary
import Cwsd.AudioStreamServer
import Cwsd.AudioSubscribers
import Cwsd.AudioWorker
import Cwsd.CircularQueue
import Cwsd.WinkeyerArguments
import Cwsd.TransitionChain
import Cwsd.ProfileSetters
import Cwsd.MemorySlots
import Cwsd.MemoryPlay
import Cwsd.PaddleKeying
import Cwsd.LetterDecoding
import Cwsd.KeyedMemory
import Cwsd.KeyInterface
import Cwsd.RigctldDescriptors
import Cwsd.RigctldShutdown
import Cwsd.LogRollout

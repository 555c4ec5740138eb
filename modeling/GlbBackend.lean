import GlbBackend.RandomAlgo
import GlbBackend.AnswerStream
import GlbBackend.Connection
import GlbBackend.DomainHistory
import GlbBackend.Snapshots
import GlbBackend.LetterCase
import GlbBackend.MapExclusion
import GlbBackend.Counts
import GlbBackend.StoreInvariant
import GlbBackend.EntryFormat
import GlbBackend.Spaces
import GlbBackend.Authority
import GlbBackend.Independence
import GlbBackend.Deadlock
import GlbBackend.Labels
import GlbBackend.Owners
import GlbBackend.Arguments
import GlbBackend.Weights
import GlbBackend.RingReads
import GlbBackend.EchoClient
import GlbBackend.BitArray
import GlbBackend.RingDebug
import GlbBackend.StringVectors
import GlbBackend.Transparency
import GlbBackend.CommandAccesses
import GlbBackend.MutexBenchmark
import GlbBackend.GLBCollection
import GlbBackend.ServerSingleton
import GlbBackend.Rapidjson.RoundTrip
import GlbBackend.ReplyDocument

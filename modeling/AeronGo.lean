import AeronGo.Laws.Publication.Position
import AeronGo.Laws.Stream.Controlled
import AeronGo.Laws.Cluster.Resources
import AeronGo.Laws.Cluster.RoundTrip
import AeronGo.Laws.Archive.Destinations
import AeronGo.Laws.Archive.Responses
import AeronGo.Laws.Publication.EndOfStream
import AeronGo.Laws.Conductor.CloseAll
import AeronGo.Laws.Publication.Sampling
import AeronGo.Laws.Publication.Paths
import AeronGo.Laws.Stream.Positions
import AeronGo.Laws.Cluster.Session
import AeronGo.Laws.Archive.Connect
import AeronGo.Laws.Archive.Control
import AeronGo.Laws.Archive.Correlation
import AeronGo.Laws.Archive.Listing
import AeronGo.Laws.Counters.Keys
import AeronGo.Laws.Subscription
import AeronGo.Laws.RingBuffer.Regions
import AeronGo.Laws.LogBuffer.LogBuffers
import AeronGo.Laws.Cluster.LogAdapter
import AeronGo.Laws.ChannelUri.Printing
import AeronGo.Laws.Conductor.CounterHandlers
import AeronGo.Laws.Conductor.Blocking
import AeronGo.Laws.Flyweight.RawData
import AeronGo.Laws.Flyweight.Strings

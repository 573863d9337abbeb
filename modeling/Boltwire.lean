import Boltwire.Reception
import Boltwire.Exchange
import Boltwire.Answering
import Boltwire.Client
import Boltwire.Containment
import Boltwire.Delivery
import Boltwire.Provenance
import Boltwire.Readiness
import Boltwire.PackStreamCanonical
import Boltwire.PackStreamRefusal
import Boltwire.ReadyFlag
import Boltwire.Finishing
import Boltwire.Lib.Transition
import Boltwire.Pool
import Boltwire.PoolSafety
import Boltwire.RoutedPool
import Boltwire.RoutedClose
import Boltwire.RoutedLimit
import Boltwire.Execute
import Boltwire.Causality
import Boltwire.CommitOnce
import Boltwire.Rollback
import Boltwire.Batches
import Boltwire.Draining
import Boltwire.Streaming
import Boltwire.UriInverse
import Boltwire.RoundRobin
import Boltwire.Checkout
import Boltwire.Owed
import Boltwire.Lib.Serde
import Boltwire.Lib.SerdeRoundTrip
import Boltwire.Lib.SerdeFailure
import Boltwire.Convert
import Boltwire.ConvertRoundTrip
import Boltwire.MapKeys
import Boltwire.Handshake
import Boltwire.Establish
import Boltwire.Disclosure
import Boltwire.Connects
import Boltwire.Pooled
import Boltwire.Handover
import Boltwire.Statements
import Boltwire.Managed
import Boltwire.Transcript
import Boltwire.Attempts
import Boltwire.PoolProgress
import Boltwire.Bookmarks
import Boltwire.View
import Boltwire.Lib.SerdeIgnored
import Boltwire.Rows
import Boltwire.Acquire
import Boltwire.Routers
import Boltwire.Cluster
import Boltwire.Requests
import Boltwire.Tls

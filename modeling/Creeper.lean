import Creeper.Proofs.Session.Framing
import Creeper.Proofs.Session.Stream
import Creeper.Proofs.Session.Whole
import Creeper.Proofs.Session.Echo
import Creeper.Proofs.Dispatch.Routing
import Creeper.Proofs.Shorten.Cache
import Creeper.Proofs.Shorten.Faults
import Creeper.Proofs.Shorten.Redirect
import Creeper.Proofs.Shorten.Codes
import Creeper.Proofs.Shorten.Database
import Creeper.Proofs.Shorten.UriForm
import Creeper.Proofs.Shorten.Pooled
import Creeper.Proofs.Pools.Redis
import Creeper.Proofs.Pools.Realized
import Creeper.Proofs.Pools.Progress
import Creeper.Proofs.Static.Containment
import Creeper.Proofs.Static.Paths
import Creeper.Proofs.Static.Responses
import Creeper.Proofs.Crud.Containment
import Creeper.Proofs.Crud.Semantics
import Creeper.Proofs.Crud.Create
import Creeper.Proofs.Crud.TornReads
import Creeper.Proofs.Crud.Throws
import Creeper.Proofs.Crud.Extraction
import Creeper.Proofs.Crud.AnyLocation
import Creeper.Proofs.Crud.Writes
import Creeper.Proofs.Crud.Listing
import Creeper.Proofs.Config.RoundTrip
import Creeper.Proofs.Config.Layout
import Creeper.Proofs.Config.Twins
import Creeper.Proofs.Config.Arguments
import Creeper.Proofs.Config.Numbers
import Creeper.Proofs.Config.Termination
import Creeper.Proofs.Server.Accepting
import Creeper.Proofs.Server.Posted
import Creeper.Proofs.Server.Waiting
import Creeper.Proofs.Server.Sessions

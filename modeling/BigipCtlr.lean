import BigipCtlr.Common.Duration
import BigipCtlr.F5Router.Backoff
import BigipCtlr.F5Router.Bind
import BigipCtlr.F5Router.ConfigWriter
import BigipCtlr.F5Router.Emission
import BigipCtlr.F5Router.FetchLaws
import BigipCtlr.F5Router.HolderIP
import BigipCtlr.F5Router.Names
import BigipCtlr.F5Router.Ranges
import BigipCtlr.F5Router.References
import BigipCtlr.F5Router.Rejection
import BigipCtlr.F5Router.Restart
import BigipCtlr.F5Router.RouteDomain
import BigipCtlr.F5Router.Routing
import BigipCtlr.F5Router.Rules
import BigipCtlr.F5Router.Search
import BigipCtlr.F5Router.Unbind
import BigipCtlr.Main.Lifecycle
import BigipCtlr.Mbus.Pools
import BigipCtlr.Mbus.Reconnect
import BigipCtlr.Registry.Creation
import BigipCtlr.Registry.Export
import BigipCtlr.Registry.Matching
import BigipCtlr.Registry.Mirror
import BigipCtlr.Registry.Serving
import BigipCtlr.Registry.Suspension
import BigipCtlr.Route.LeastConnection
import BigipCtlr.Route.Pruning
import BigipCtlr.Route.RoundRobin
import BigipCtlr.RouteFetcher.Ordering
import BigipCtlr.RouteFetcher.Pools
import BigipCtlr.RoutingTable.Delivery
import BigipCtlr.RoutingTable.Expiry
import BigipCtlr.ServiceBroker.Naming
import BigipCtlr.ServiceBroker.Recovery
import BigipCtlr.ServiceBroker.Startup
import BigipCtlr.Stats.Counts

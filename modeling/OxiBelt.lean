import OxiBelt.Admin.CoordinatorFence
import OxiBelt.Admin.Envelope
import OxiBelt.Admin.Heartbeats
import OxiBelt.Admin.Ledger
import OxiBelt.Admin.RolloutDirectives
import OxiBelt.Admin.RolloutRun
import OxiBelt.Audit.SpoolRecovery
import OxiBelt.Cache.Fill
import OxiBelt.Cache.KeyIdentity
import OxiBelt.Cache.Lookup
import OxiBelt.Cache.PurgeNonce
import OxiBelt.Cache.Revalidation
import OxiBelt.CircuitBreakers.OpenPeriods
import OxiBelt.CircuitBreakers.PriorityReservations
import OxiBelt.Ct.Checkpoint
import OxiBelt.Ct.Compliance
import OxiBelt.Ct.Consistency
import OxiBelt.Ct.DataTile
import OxiBelt.Ct.TilePath
import OxiBelt.Ct.TransItem
import OxiBelt.Identity.RealIp
import OxiBelt.Ipm.Authorize
import OxiBelt.Overload.Hysteresis
import OxiBelt.Proxy.ForwardedFor
import OxiBelt.Proxy.HopByHop
import OxiBelt.Proxy.ResponseChunked
import OxiBelt.Proxy.ResponseGrammar
import OxiBelt.Routes.Resolution
import OxiBelt.Server.Http1Session
import OxiBelt.SharedState.ConnectionLimits
import OxiBelt.SharedState.RateLimits
import OxiBelt.SniForward.RecordReassembly
import OxiBelt.Uploads.LocalStore
import OxiBelt.Waf.CrsSyntax
import OxiBelt.Waf.HtmlEntities
import OxiBelt.Waf.Normalization
import OxiBelt.Waf.PatternSet
import OxiBelt.WebTransport.CapsuleRoundTrip
import OxiBelt.WebTransport.PairSafety

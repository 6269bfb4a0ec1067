import Gosestor.Lib.Program
import Gosestor.Go.Strings
import Gosestor.Lib.GoMap
import Gosestor.Go.Http
import Gosestor.Store.Basic
import Gosestor.Store.Memory
import Gosestor.Runtime
import Gosestor.Session.Manager
import Gosestor.World
import Gosestor.Proof.Store.Memory
import Gosestor.Proof.Store.Integrity
import Gosestor.Session.Operation
import Gosestor.Proof.History
import Gosestor.Proof.Session.Proper
import Gosestor.Proof.Session.Invariant
import Gosestor.Proof.Session.Runs
import Gosestor.Proof.Session.ResolveWindow
import Gosestor.Proof.Session.Serial
import Gosestor.Proof.Session.Integrity
import Gosestor.Proof.Session.RevokeOwner
import Gosestor.Authz
import Gosestor.Handler.Config
import Gosestor.Handler.Staging
import Gosestor.Handler.Interceptor
import Gosestor.Handler.Serve
import Gosestor.Proof.Go.Strings
import Gosestor.Proof.Handler.Header
import Gosestor.Proof.Handler.Staging
import Gosestor.Proof.Handler.Downstream
import Gosestor.Proof.Handler.Processing
import Gosestor.Proof.Handler.Outcome
import Gosestor.Proof.Session.Effects
import Gosestor.Handler.Traffic
import Gosestor.Proof.Handler.Serve
import Gosestor.Proof.Handler.Traffic
import Gosestor.Proof.Handler.Mediation
import Gosestor.Proof.Handler.CanonicalKeys
import Gosestor.Proof.Handler.Sessional
import Gosestor.Proof.Handler.Blocks
import Gosestor.Proof.Handler.Commits
import Gosestor.Proof.Handler.Logout
import Gosestor.Proof.Session.Binding
import Gosestor.Proof.Session.Timeouts
import Gosestor.Handler.Budget
import Gosestor.Proof.Handler.Atomicity
import Gosestor.Proof.Handler.Budget
import Gosestor.Lib.Redis
import Gosestor.Store.Redis
import Gosestor.Proof.Store.Scripts
import Gosestor.Go.Url
import Gosestor.Proof.Authz
import Gosestor.Proof.Go.Url
import Gosestor.Proof.Handler.Denial
import Gosestor.Proof.Go.Http
import Gosestor.Proof.Handler.Upstream
import Gosestor.Proof.Go.Fields
import Gosestor.Proof.Session.Labels
import Gosestor.Proof.Handler.Stored
import Gosestor.Proof.Handler.Deletion
import Gosestor.Proof.Handler.Spool
import Gosestor.Proof.Handler.Response
import Gosestor.Proof.Handler.Said
import Gosestor.Proof.Handler.Batch
import Gosestor.Proof.Handler.Grants
import Gosestor.Proof.Handler.CookieValues
import Gosestor.Lib.Simulation
import Gosestor.Lib.Cells
import Gosestor.Proof.Store.Slots
import Gosestor.Proof.Handler.Spoofing
import Gosestor.Proof.Handler.ReturnTarget
import Gosestor.Proof.Go.SetCookie
import Gosestor.Proof.Handler.ProxyCookie
import Gosestor.Proof.Session.ResolveRaces
import Gosestor.Proof.Handler.ClientKey
import Gosestor.Proof.Handler.Handshake
import Gosestor.Proof.Handler.Metadata
import Gosestor.Proof.Session.Usable
import Gosestor.Proof.Handler.Trailers
import Gosestor.Store.Lock
import Gosestor.Proof.Store.Targets
import Gosestor.Proof.Store.Lock
import Gosestor.Proof.Session.ApplyResponse
import Gosestor.Proof.Session.Alignment
import Gosestor.Proof.Session.Alike
import Gosestor.Proof.Session.Deadlines
import Gosestor.Proof.Session.OnMemory
import Gosestor.Proof.Session.OwnerReach

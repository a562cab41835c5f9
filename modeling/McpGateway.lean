import McpGateway.AsciiDumps
import McpGateway.Canonical
import McpGateway.Rotation
import McpGateway.WorkerPool
import McpGateway.Outage
import McpGateway.Staleness
import McpGateway.Readiness
import McpGateway.Totality
import McpGateway.Normalization
import McpGateway.Forwarding
import McpGateway.Disclosure
import McpGateway.Discovery
import McpGateway.Isolation
import McpGateway.ScopeRules
import McpGateway.Stream
import McpGateway.ToolGrants
import McpGateway.Closing
import McpGateway.AuditTrail
import McpGateway.KeyRemoval
import McpGateway.Preservation
import McpGateway.TokenErrors
import McpGateway.Repr
import McpGateway.AuditLine
import McpGateway.Exits
import McpGateway.Twins
import McpGateway.Revealed
import McpGateway.PolicyFiles
import McpGateway.RuleNames
import McpGateway.ScopeFiles
import McpGateway.Pkce
import McpGateway.Draining
import McpGateway.RoundTrip
import McpGateway.AuditLog
import McpGateway.Startup
import McpGateway.Probe
import McpGateway.FilterLaws
import McpGateway.Interleaving
import McpGateway.Sending
import McpGateway.PolicyRoundTrip
import McpGateway.Readings

import PierGateway.GoStrings
import PierGateway.GoUnicode
import PierGateway.NetUrl
import PierGateway.Schemes
import PierGateway.UrlLaws
import PierGateway.QueryLaws
import PierGateway.HttpMessages
import PierGateway.ReverseProxy
import PierGateway.SigV4
import PierGateway.Json
import PierGateway.Claims
import PierGateway.Resolver
import PierGateway.RewriteHeaders
import PierGateway.PassThrough
import PierGateway.S3Handler
import PierGateway.AdminGate
import PierGateway.HopByHop
import PierGateway.CopySource
import PierGateway.Signing
import PierGateway.CredentialIsolation
import PierGateway.DotSegments
import PierGateway.PathTargets
import PierGateway.RuneLaws
import PierGateway.RuneEncoding
import PierGateway.ContentSecurity
import PierGateway.MediaTypes
import PierGateway.FileNames
import PierGateway.Digest
import PierGateway.Interaction
import PierGateway.ServeMux
import PierGateway.StatsCache
import PierGateway.UiAuth
import PierGateway.CrossSite
import PierGateway.Api
import PierGateway.BucketStats
import PierGateway.OidcHandlers
import PierGateway.Settings
import PierGateway.LoginEndpoints
import PierGateway.Authorization
import PierGateway.CallTargets
import PierGateway.CleanPaths
import PierGateway.SpaClient
import PierGateway.VisiblePaths
import PierGateway.KeyTransport
import PierGateway.RouteValues
import PierGateway.EffectivePermissions
import PierGateway.GroupNames
import PierGateway.ClaimMapping
import PierGateway.BucketListings
import PierGateway.Histories
import PierGateway.StatsRuns
import PierGateway.StatsInvariant
import PierGateway.StatsOutcomes
import PierGateway.BucketTotals
import PierGateway.RateLimiter
import PierGateway.RateIsolation
import PierGateway.ClientAddress
import PierGateway.LoginRuns
import PierGateway.LoginPairing
import PierGateway.EventRuns
import PierGateway.ObjectList
import PierGateway.Pagination
import PierGateway.BucketsStore
import PierGateway.StatsMerge
import PierGateway.Session
import PierGateway.Csv
import PierGateway.CsvRoundTrip
import PierGateway.PreviewKinds
import PierGateway.FilePreview
import PierGateway.TokenExchange
import PierGateway.Binary64
import PierGateway.FloatLiterals
import PierGateway.Quotas
import PierGateway.QuotaEntries
import PierGateway.StaticFiles
import PierGateway.AppPolicy
import PierGateway.Servers
import PierGateway.Restriction
import PierGateway.Isolation
import PierGateway.CookieTransport
import PierGateway.CookieSessions
import PierGateway.Startup
import PierGateway.SignIn
import PierGateway.KeyTrees
import PierGateway.Folders
import PierGateway.FolderUploads
import PierGateway.Uploads
import PierGateway.BucketsPage
import PierGateway.ObjectIntegrity
import PierGateway.LimiterMemory
import PierGateway.Serial
import PierGateway.AtomicRequests
import PierGateway.JsonRoundTrip
import PierGateway.ApiFormats

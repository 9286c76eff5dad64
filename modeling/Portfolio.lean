import Portfolio.Txn.Prog
import Portfolio.Txn.System
import Portfolio.Json
import Portfolio.Binary64
import Portfolio.Rows
import Portfolio.Records
import Portfolio.Sql
import Portfolio.Storage
import Portfolio.Locks
import Portfolio.Effects
import Portfolio.Versioned
import Portfolio.ExactlyOnce
import Portfolio.Revisions
import Portfolio.Membership
import Portfolio.Archive
import Portfolio.Updates
import Portfolio.Txn.Rely
import Portfolio.Sequence
import Portfolio.Txn.Schedule
import Portfolio.Serializable
import Portfolio.Representation
import Portfolio.Rollup
import Portfolio.Contract
import Portfolio.Validation
import Portfolio.Handlers
import Portfolio.Admission
import Portfolio.Txn.Calls
import Portfolio.Responses
import Portfolio.Tenants
import Portfolio.Authority
import Portfolio.Authorization
import Portfolio.Deadlock
import Portfolio.Aggregates
import Portfolio.DateText
import Portfolio.Windows
import Portfolio.Numbers
import Portfolio.Cursors
import Portfolio.Pages
import Portfolio.Requests
import Portfolio.Txn.Meets
import Portfolio.Rendering
import Portfolio.Faults
import Portfolio.Staging
import Portfolio.Texts
import Portfolio.Verdict
import Portfolio.Decisions
import Portfolio.Storable
import Portfolio.Reordering
import Portfolio.Configuration
import Portfolio.Schemas
import Portfolio.Errors
import Portfolio.Stale
import Portfolio.Attach
import Portfolio.PageWalks
import Portfolio.Txn.Ending
import Portfolio.Txn.Solo
import Portfolio.Liveness
import Portfolio.Lineup
import Portfolio.Trace
import Portfolio.Plan
import Portfolio.Refinement
import Portfolio.Views
import Portfolio.Txn.Moments
import Portfolio.Moments
import Portfolio.Wire
import Portfolio.Codecs
import Portfolio.Keys
import Portfolio.Values
import Portfolio.DomainErrors
import Portfolio.Tools
import Portfolio.Schema
import Portfolio.Conformance
import Portfolio.Published
import Portfolio.Independence
import Portfolio.Realization

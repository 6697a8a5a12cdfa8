import Sysknife.Audit.Chain
import Sysknife.Dispatcher.Binding
import Sysknife.Postgres.Sessions
import Sysknife.Postgres.Conduct
import Sysknife.Postgres.Races
import Sysknife.Postgres.LateGrants
import Sysknife.Lib.Links
import Sysknife.Lib.Marks
import Sysknife.Postgres.Chains
import Sysknife.Audit.Checkpoints
import Sysknife.Store.Events
import Sysknife.Store.Status
import Sysknife.Store.Honest
import Sysknife.Store.Statements
import Sysknife.Actions.Validate
import Sysknife.Actions.Build
import Sysknife.Helpers.ActionSteps
import Sysknife.Helpers.Edits
import Sysknife.Helpers.Grammars
import Sysknife.Helpers.EditGrammars
import Sysknife.Helpers.CommandLines
import Sysknife.Helpers.Operations
import Sysknife.Helpers.EditParity
import Sysknife.Helpers.SudoersRules
import Sysknife.Cli.Client
import Sysknife.Cli.Outcome
import Sysknife.Cli.Approval
import Sysknife.Cli.Plan
import Sysknife.Actions.Catalogue
import Sysknife.Dispatcher.Evidence
import Sysknife.Dispatcher.LiveEffects
import Sysknife.Brain.QueryTools
import Sysknife.Brain.Adapters
import Sysknife.Brain.ToolSecrets
import Sysknife.Audit.Verdicts
import Sysknife.Audit.Census
import Sysknife.Lib.Reading
import Sysknife.Transport.Framing
import Sysknife.Dispatcher.FinalStatus
import Sysknife.Store.Reconcile
import Sysknife.Dispatcher.RequestHash
import Sysknife.Brain.Sanitize
import Sysknife.Brain.Envelope
import Sysknife.Actions.Platform
import Sysknife.Transport.Peers
import Sysknife.Helpers.Fstab
import Sysknife.Helpers.Screens
import Sysknife.Lib.Window
import Sysknife.Actions.Spellings
import Sysknife.Brain.RateLimit
import Sysknife.Helpers.MountPolicy
import Sysknife.Cli.OperatorText
import Sysknife.Actions.Repositories
import Sysknife.Helpers.GrubKargs
import Sysknife.Helpers.Rollback
import Sysknife.Lib.Pieces
import Sysknife.Brain.Labels
import Sysknife.Brain.KeyTokens
import Sysknife.Helpers.AuthorizedKeys
import Sysknife.Dispatcher.Previews
import Sysknife.Brain.Journal
import Sysknife.Audit.Syslog
import Sysknife.Cli.ReplyScreen
import Sysknife.Brain.ErrorText
import Sysknife.Brain.Conversation
import Sysknife.Shell.Session
import Sysknife.Brain.AuditTime
import Sysknife.Dispatcher.History
import Sysknife.Brain.Feedback
import Sysknife.Cli.Correction
import Sysknife.Shell.Review
import Sysknife.Cli.ConsentViews
import Sysknife.Shell.Delivery
import Sysknife.Shell.Consent
import Sysknife.Brain.Replay
import Sysknife.Postgres.Backends
import Sysknife.Lib.Hosting
import Sysknife.Dispatcher.Warrants
import Sysknife.Lib.Restarts
import Sysknife.Store.Interrupted
import Sysknife.Dispatcher.Restarts
import Sysknife.Executor.Interlock
import Sysknife.Store.Anchors
import Sysknife.Cli.AuditVerify

import WardenProtocol.GoString
import WardenProtocol.Foundation.Fallible
import WardenProtocol.Foundation.Binary64
import WardenProtocol.Foundation.Paging
import WardenProtocol.Shield.Lexer
import WardenProtocol.Shield.LexerText
import WardenProtocol.Shield.LexerCalls
import WardenProtocol.Shield.Ast
import WardenProtocol.Shield.Parser
import WardenProtocol.Shield.Grammar
import WardenProtocol.Shield.GrammarComplete
import WardenProtocol.Shield.WholeText
import WardenProtocol.Shield.Evaluator
import WardenProtocol.Shield.Outline
import WardenProtocol.Act.Rule
import WardenProtocol.Act.Simulation
import WardenProtocol.Foundation.Program
import WardenProtocol.Repo.SeqCollection
import WardenProtocol.Act.Types
import WardenProtocol.Shield.Preprocess
import WardenProtocol.Act.Keeper
import WardenProtocol.Act.Messages
import WardenProtocol.Act.Changes
import WardenProtocol.Act.Effects
import WardenProtocol.Act.Lifecycle
import WardenProtocol.Act.Approvals
import WardenProtocol.Act.Deadline
import WardenProtocol.Act.Unresolved
import WardenProtocol.Warden.MsgServer
import WardenProtocol.Warden.Rules
import WardenProtocol.Warden.Integrity
import WardenProtocol.Warden.Authorisation
import WardenProtocol.Warden.ActionCreator
import WardenProtocol.Spaceward.Definition
import WardenProtocol.Shield.Phrase
import WardenProtocol.Spaceward.RuleText
import WardenProtocol.Spaceward.Flattening
import WardenProtocol.Spaceward.Alignment
import WardenProtocol.Spaceward.Kept
import WardenProtocol.Spaceward.Whitelist
import WardenProtocol.Act.Frame
import WardenProtocol.Act.Terms
import WardenProtocol.Act.Handlers
import WardenProtocol.Warden.Changes
import WardenProtocol.Warden.References
import WardenProtocol.Repo.ImportExport
import WardenProtocol.Repo.Numbering
import WardenProtocol.Warden.Genesis
import WardenProtocol.Act.Events
import WardenProtocol.Warden.Events
import WardenProtocol.KeychainSdk.SignRequests
import WardenProtocol.Foundation.Transition
import WardenProtocol.KeychainSdk.Writer
import WardenProtocol.KeychainSdk.WriterLive
import WardenProtocol.GoClient.RawTx
import WardenProtocol.KeychainSdk.Transactions
import WardenProtocol.Gmp.Transfer
import WardenProtocol.KeychainSdk.Ingestion
import WardenProtocol.Foundation.Labelled
import WardenProtocol.Act.Queries
import WardenProtocol.Act.Steps
import WardenProtocol.Act.Mentions
import WardenProtocol.Warden.Analyzers
import WardenProtocol.Act.Accounts
import WardenProtocol.Warden.Writes
import WardenProtocol.Warden.Owners
import WardenProtocol.Warden.Requests
import WardenProtocol.Warden.RuleReferences
import WardenProtocol.Warden.Reimport
import WardenProtocol.WasmInterop.JsonValue
import WardenProtocol.WasmInterop.Messages
import WardenProtocol.Warden.Queries
import WardenProtocol.WasmInterop.Queries
import WardenProtocol.Shield.Threshold
import WardenProtocol.Act.Monotone
import WardenProtocol.Shield.Nodes
import WardenProtocol.Shield.Typing
import WardenProtocol.Shield.Substitution
import WardenProtocol.Warden.Expansion
import WardenProtocol.Warden.AnyOwner
import WardenProtocol.Warden.Fulfilments
import WardenProtocol.Warden.RequestQueries
import WardenProtocol.Warden.Numbers
import WardenProtocol.Shield.Termination
import WardenProtocol.Shield.Recovery
import WardenProtocol.Act.Panics
import WardenProtocol.Shield.Printing
import WardenProtocol.Shield.Stringify
import WardenProtocol.Shield.Memory
import WardenProtocol.Shield.Sharing
import WardenProtocol.Spaceward.Regrouping
import WardenProtocol.Spaceward.RegroupedValue
import WardenProtocol.Spaceward.RegroupedRun
import WardenProtocol.Spaceward.Code
import WardenProtocol.Foundation.Fields
import WardenProtocol.Spaceward.Bracketed
import WardenProtocol.Spaceward.CodeTree
import WardenProtocol.Spaceward.CodeWords
import WardenProtocol.Spaceward.CodeRun
import WardenProtocol.Spaceward.CodeGrammar
import WardenProtocol.Spaceward.CodeMeaning
import WardenProtocol.Spaceward.CodeReady
import WardenProtocol.Spaceward.CodeShield
import WardenProtocol.Spaceward.CodeParsed
import WardenProtocol.Spaceward.CodeDenotes
import WardenProtocol.Spaceward.CodeSound
import WardenProtocol.Spaceward.Editing
import WardenProtocol.Foundation.Decimal
import WardenProtocol.Spaceward.Amounts
import WardenProtocol.Spaceward.AmountTexts
import WardenProtocol.Spaceward.AmountInputs
import WardenProtocol.ActClient.Flags
import WardenProtocol.ActClient.Restored
import WardenProtocol.Faucet.Client
import WardenProtocol.Faucet.Answers
import WardenProtocol.Faucet.Limiter
import WardenProtocol.Faucet.Cooldown
import WardenProtocol.Proto.Stored
import WardenProtocol.Wardenkms.Custody
import WardenProtocol.Wardenjs.Messages
import WardenProtocol.Warden.Grants
import WardenProtocol.Warden.Later
import WardenProtocol.Spaceward.RequestHooks
import WardenProtocol.Spaceward.RequestRuns
import WardenProtocol.Spaceward.RequestReturns
import WardenProtocol.Spaceward.SignedData

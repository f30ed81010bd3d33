import Conform.Datum.Listing
import Conform.Script
import Conform.Hooks.Catalogue
import Conform.Validation.Entry
import Conform.Proofs.Captured
import Conform.Proofs.Run.Exec
import Conform.Proofs.Run.Writes
import Conform.Proofs.Run.Alike
import Conform.Proofs.Validation.Frames
import Conform.Proofs.Validation.Lookup
import Conform.Proofs.Validation.Finish
import Conform.Proofs.Validation.Rules
import Conform.Proofs.Validation.Checks
import Conform.Proofs.Validation.Settled
import Conform.Proofs.Validation.Evaluators
import Conform.Proofs.Validation.Containers
import Conform.Proofs.Validation.Alternatives
import Conform.Proofs.Schema.Keeping
import Conform.Proofs.Schema.Alike
import Conform.Proofs.Schema.Free
import Conform.Proofs.Options
import Conform.Proofs.Memo
import Conform.Proofs.Validation.Entry
import Conform.Proofs.Reach
import Conform.Proofs.HookRun
import Conform.Proofs.Validation.Stages
import Conform.Proofs.Visits
import Conform.Proofs.Standing
import Conform.Proofs.Meeting
import Conform.Proofs.Causes
import Conform.Proofs.Answering
import Conform.Proofs.Probes
import Conform.Proofs.AbortEarly
import Conform.Proofs.Passing
import Conform.Proofs.Answers
import Conform.Proofs.Chains
import Conform.Proofs.Merges
import Conform.Proofs.Stored
import Conform.Proofs.Strict
import Conform.Proofs.Marked
import Conform.Proofs.Sight
import Conform.Proofs.ValueSets
import Conform.Proofs.Requests
import Conform.Proofs.Contexts
import Conform.Proofs.Validation.Approach
import Conform.Proofs.Spellings
import Conform.Proofs.Located
import Conform.Proofs.Datum.Equivalence
import Conform.Proofs.Datum.Matching
import Conform.Proofs.ValueSets.Histories
import Conform.Proofs.ValueSets.Construction
import Conform.Proofs.Alone
import Conform.Proofs.FirstMatch
import Conform.Proofs.Keywise
import Conform.Proofs.ValueSets.Merging
import Conform.Proofs.ValueSets.LastWord
import Conform.Proofs.Dispatch
import Conform.Proofs.MatchModes
import Conform.Proofs.Switches
import Conform.Proofs.TryLists
import Conform.Proofs.Recency
import Conform.Proofs.Shadowed
import Conform.Proofs.Composed
import Conform.Proofs.Absent
import Conform.Proofs.Rerouted
import Conform.Proofs.PostOrder
import Conform.Proofs.DeepDefaults
import Conform.Proofs.Schema.RuleLists
import Conform.Proofs.Number.Texts
import Conform.Proofs.Truths
import Conform.Proofs.Literals
import Conform.Proofs.Climbing
import Conform.Proofs.Ledger

import StackDeck.Backend.Rehearsal
import StackDeck.Main
import StackDeck.Proofs.Claude.Diagnostics
import StackDeck.Proofs.Claude.Grammar
import StackDeck.Proofs.Claude.Resumption
import StackDeck.Proofs.Compose.Listing
import StackDeck.Proofs.Compose.Progress
import StackDeck.Proofs.Config.Acceptance
import StackDeck.Proofs.DataModel
import StackDeck.Proofs.Diagnosis.Answer
import StackDeck.Proofs.Diagnosis.Clock
import StackDeck.Proofs.Diagnosis.Failure
import StackDeck.Proofs.Diagnosis.FirstPrompt
import StackDeck.Proofs.Diagnosis.Handover
import StackDeck.Proofs.Diagnosis.Interrupt
import StackDeck.Proofs.Diagnosis.Numbering
import StackDeck.Proofs.Diagnosis.Protocol
import StackDeck.Proofs.Diagnosis.RawOutput
import StackDeck.Proofs.Diagnosis.Release
import StackDeck.Proofs.Diagnosis.Retirement
import StackDeck.Proofs.Diagnosis.Surfacing
import StackDeck.Proofs.Diagnosis.Tooling
import StackDeck.Proofs.Diagnosis.Utterance
import StackDeck.Proofs.Digits
import StackDeck.Proofs.Health.Reception
import StackDeck.Proofs.Health.Streak
import StackDeck.Proofs.Hub.Delivery
import StackDeck.Proofs.Hub.Isolation
import StackDeck.Proofs.Hub.Registration
import StackDeck.Proofs.Hub.Run
import StackDeck.Proofs.Hub.Stream
import StackDeck.Proofs.Hub.Venue
import StackDeck.Proofs.Hub.Yield
import StackDeck.Proofs.Json.Blank
import StackDeck.Proofs.Json.Format
import StackDeck.Proofs.Json.Nesting
import StackDeck.Proofs.Json.Number
import StackDeck.Proofs.Json.Object
import StackDeck.Proofs.Json.Proper
import StackDeck.Proofs.Json.Text
import StackDeck.Proofs.Json.Value
import StackDeck.Proofs.Lifecycle.Action
import StackDeck.Proofs.Lifecycle.Attribution
import StackDeck.Proofs.Lifecycle.Clock
import StackDeck.Proofs.Lifecycle.Counting
import StackDeck.Proofs.Lifecycle.Exclusion
import StackDeck.Proofs.Lifecycle.Language
import StackDeck.Proofs.Lifecycle.Ownership
import StackDeck.Proofs.Lifecycle.Refusal
import StackDeck.Proofs.Log.Brackets
import StackDeck.Proofs.Log.Cleaning
import StackDeck.Proofs.Log.Feed
import StackDeck.Proofs.Log.Forwarding
import StackDeck.Proofs.Log.History
import StackDeck.Proofs.Log.Message
import StackDeck.Proofs.Log.Pairs
import StackDeck.Proofs.Log.Plain
import StackDeck.Proofs.Log.Reconciling
import StackDeck.Proofs.Log.Relaying
import StackDeck.Proofs.Log.Roster
import StackDeck.Proofs.Log.TailRegistry
import StackDeck.Proofs.Log.Traffic
import StackDeck.Proofs.Log.Words
import StackDeck.Proofs.Shell.Channel
import StackDeck.Proofs.Shell.Reading
import StackDeck.Proofs.Text.Space
import StackDeck.Proofs.Time.Calendar
import StackDeck.Proofs.Time.Forms
import StackDeck.Proofs.Time.Shown
import StackDeck.Proofs.Time.Timestamp
import StackDeck.Proofs.Web.Arrival
import StackDeck.Proofs.Web.Call
import StackDeck.Proofs.Web.Course
import StackDeck.Proofs.Web.Framing
import StackDeck.Proofs.Web.Refusal
import StackDeck.Web.Server

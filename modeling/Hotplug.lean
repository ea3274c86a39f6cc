import Hotplug.Action
import Hotplug.Address.Basic
import Hotplug.Address.Parse
import Hotplug.Api.Refusal
import Hotplug.Api.Request
import Hotplug.Attachment.Basic
import Hotplug.Attachment.HardwareAddress
import Hotplug.Attachment.Parse
import Hotplug.Cni
import Hotplug.CommandLine
import Hotplug.Controller
import Hotplug.Decimal.Binary64
import Hotplug.Decimal.Shortest
import Hotplug.Definition
import Hotplug.Delegate.Basic
import Hotplug.Delegate.Exchange
import Hotplug.Event
import Hotplug.Index
import Hotplug.Json.Decode
import Hotplug.Json.Numeral
import Hotplug.Json.Token
import Hotplug.Json.Value
import Hotplug.Log
import Hotplug.Main
import Hotplug.Pass
import Hotplug.Path
import Hotplug.Plan
import Hotplug.Pod
import Hotplug.Proofs.Naming
import Hotplug.Proofs.Plan.Claims
import Hotplug.Proofs.Sorted
import Hotplug.Proofs.Status.Merge
import Hotplug.Proofs.WorkQueue.Coherence
import Hotplug.Proofs.WorkQueue.Shift
import Hotplug.Readiness
import Hotplug.Rehearsal.Bench
import Hotplug.Rehearsal.Timeline
import Hotplug.Rehearsal.World
import Hotplug.Sandbox.Fault
import Hotplug.Sandbox.Info
import Hotplug.Sandbox.Message
import Hotplug.Sandbox.Resolve
import Hotplug.Settings
import Hotplug.Sightings
import Hotplug.Startup
import Hotplug.Status
import Hotplug.Text.Base64
import Hotplug.Text.Basic
import Hotplug.Text.FormEncoded
import Hotplug.Text.Printable
import Hotplug.Text.Quoted
import Hotplug.Text.Utf8
import Hotplug.Watch.Cache
import Hotplug.Watch.Reflector
import Hotplug.Wire
import Hotplug.WorkQueue.Backoff
import Hotplug.WorkQueue.Basic
import Hotplug.WorkQueue.Bell
import Hotplug.Proofs.Plan.Progress
import Hotplug.Proofs.Plan.Matching
import Hotplug.Proofs.Controller.Loop
import Hotplug.Proofs.Controller.Retries
import Hotplug.Proofs.Json.Numerals
import Hotplug.Proofs.Json.Numbers
import Hotplug.Proofs.Json.Layout
import Hotplug.Proofs.Json.Reading
import Hotplug.Proofs.Status.Codec
import Hotplug.Proofs.Action
import Hotplug.Proofs.Pass.Ledger
import Hotplug.Proofs.Plan.Unmet
import Hotplug.Proofs.Pass.Plugging
import Hotplug.Proofs.Controller.Site
import Hotplug.Proofs.Watch.Known
import Hotplug.Proofs.Controller.Lookout
import Hotplug.Proofs.Decimal.Rounding
import Hotplug.Proofs.Decimal.Shortest
import Hotplug.Proofs.Json.Decoded
import Hotplug.Proofs.Trace
import Hotplug.Proofs.Pass.Attempts
import Hotplug.Proofs.Sandbox.Resolve
import Hotplug.Proofs.Pass.Location
import Hotplug.Proofs.Pass.Deeds
import Hotplug.Proofs.Pass.Standing
import Hotplug.Proofs.Json.Integral
import Hotplug.Proofs.Status.RoundTrip
import Hotplug.Proofs.Pass.Defaults
import Hotplug.Proofs.Controller.Drops
import Hotplug.Proofs.Pass.Requests
import Hotplug.Proofs.Pass.Opposites
import Hotplug.Proofs.Api.Patch
import Hotplug.Proofs.Pass.Overwrites
import Hotplug.Proofs.Controller.Promises
import Hotplug.Proofs.Controller.Drain
import Hotplug.Proofs.Controller.Service
import Hotplug.Proofs.Attachment.Codec
import Hotplug.Proofs.Attachment.Shorthand
import Hotplug.Proofs.Plan.Distinct
import Hotplug.Proofs.Plan.Greedy
import Hotplug.Proofs.Status.Strikes
import Hotplug.Proofs.Pass.Errands
import Hotplug.Proofs.Pass.Undoing
import Hotplug.Proofs.Plan.Order
import Hotplug.Proofs.Status.Stepwise
import Hotplug.Proofs.Pass.Exits
import Hotplug.Proofs.WorkQueue.Wakeups
import Hotplug.Proofs.Watch.Relist
import Hotplug.Proofs.Text.Utf8
import Hotplug.Proofs.Address.RoundTrip
import Hotplug.Proofs.Attachment.RoundTrip
import Hotplug.Proofs.Delegate.Payload
import Hotplug.Proofs.Definition
import Hotplug.Proofs.Status.Described
import Hotplug.Proofs.Json.Fields
import Hotplug.Proofs.Sandbox.Steps
import Hotplug.Proofs.Attachment.Validated
import Hotplug.Proofs.Pass.Vetted
import Hotplug.Proofs.Wire.Spelling
import Hotplug.Proofs.Wire.Layout
import Hotplug.Proofs.Sandbox.Messages
import Hotplug.Proofs.WorkQueue.Backoff

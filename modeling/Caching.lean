import Caching.Agenda.Desk
import Caching.Cache.Registry
import Caching.Cache.Session
import Caching.Settings.Source
import Caching.Spec.Builder
import Caching.Time.Clockwork
import Caching.Worker.Waiting
import Caching.Proofs.Contract.Deed
import Caching.Proofs.Engine.Keyed
import Caching.Proofs.Listener.Telling
import Caching.Proofs.Engine.Lawful
import Caching.Proofs.Recency.Deeds
import Caching.Proofs.Recency.Ranking
import Caching.Proofs.Script.Simulation
import Caching.Proofs.Recency.Refinement
import Caching.Proofs.Vacant.Deeds
import Caching.Proofs.Timed.Deeds
import Caching.Proofs.Engine.Course
import Caching.Proofs.Ledger.Transfer
import Caching.Proofs.Ledger.Custody
import Caching.Proofs.Ledger.Accounts
import Caching.Proofs.Time.Counting
import Caching.Proofs.Time.Requests
import Caching.Proofs.Time.Copies
import Caching.Proofs.Agenda.Drain
import Caching.Proofs.History
import Caching.Proofs.Ledger.Balance
import Caching.Proofs.Agenda.Laws
import Caching.Proofs.Agenda.Lockstep
import Caching.Proofs.Timed.Reference
import Caching.Proofs.Timed.Reflection
import Caching.Proofs.Timed.Refinement
import Caching.Proofs.Timed.Bookkeeping
import Caching.Proofs.Timed.Timekeeping
import Caching.Proofs.Timed.Punctuality
import Caching.Proofs.Timed.Timers
import Caching.Proofs.Agenda.Parts
import Caching.Proofs.Agenda.Chronicle
import Caching.Proofs.Agenda.Records
import Caching.Proofs.Desk.Laws
import Caching.Proofs.Desk.Stillness
import Caching.Proofs.Desk.Chronicle
import Caching.Proofs.Desk.Accounts
import Caching.Proofs.Desk.Onward
import Caching.Proofs.Desk.Incidents
import Caching.Proofs.Desk.Handles
import Caching.Proofs.Desk.Timing
import Caching.Proofs.Desk.Endurance
import Caching.Proofs.Desk.Chains
import Caching.Proofs.Desk.Grid
import Caching.Proofs.Plain.Reference
import Caching.Proofs.Plain.Engines
import Caching.Proofs.Plain.Deferred
import Caching.Proofs.Plain.Interchange
import Caching.Proofs.Starting
import Caching.Proofs.Closing.Plan
import Caching.Proofs.Closing.Yielding
import Caching.Proofs.Timed.Tending
import Caching.Proofs.Closing.Engines
import Caching.Proofs.Closing.Deferred
import Caching.Proofs.Closing.Happenings
import Caching.Proofs.Closing.Recounting
import Caching.Proofs.Closing.Silence
import Caching.Proofs.Closing.Finality
import Caching.Proofs.Closing.Refusals
import Caching.Proofs.Dispatch.Turns
import Caching.Proofs.Dispatch.Returning
import Caching.Proofs.Dispatch.Gate
import Caching.Proofs.Engine.Unaware
import Caching.Proofs.Listener.Indifference
import Caching.Proofs.Listener.Onlookers
import Caching.Proofs.Listener.Unnoticed
import Caching.Proofs.Listener.Afterwards
import Caching.Proofs.Engine.Altering
import Caching.Proofs.Engine.GivingUp
import Caching.Proofs.Script.Attempts
import Caching.Proofs.Computing.Retention
import Caching.Proofs.Computing.Computations
import Caching.Proofs.Spec.Calls
import Caching.Proofs.Creation.Rulings
import Caching.Proofs.Creation.Outcomes
import Caching.Proofs.Registry.Editing
import Caching.Proofs.Spec.Choices
import Caching.Proofs.Spec.Finality
import Caching.Proofs.Spec.Layers
import Caching.Proofs.Text.Trimming
import Caching.Proofs.Text.Digits
import Caching.Proofs.Vocabulary.Lawful
import Caching.Proofs.Json.Grammar
import Caching.Proofs.Json.Numbers
import Caching.Proofs.Json.Scanning
import Caching.Proofs.Settings.Documents
import Caching.Proofs.Settings.Environment
import Caching.Proofs.Settings.Lines
import Caching.Proofs.Session.Tandem
import Caching.Proofs.Vacant.Emptied
import Caching.Proofs.Vacant.Namesakes
import Caching.Proofs.Worker.Stopping
import Caching.Proofs.Worker.Events
import Caching.Proofs.Worker.Guarantees

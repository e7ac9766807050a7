import Ember.Foreign
import Ember.Main
import Ember.Proofs.Evaluation.Agreement
import Ember.Proofs.Machine.Sessions
import Ember.Proofs.Machine.Transactions
import Ember.Proofs.Machine.Circularity
import Ember.Proofs.Machine.Isolation
import Ember.Proofs.Machine.Metadata
import Ember.Proofs.Machine.Places
import Ember.Proofs.Machine.Silence
import Ember.Proofs.Machine.Termination
import Ember.Proofs.Source.Cursors
import Ember.Proofs.Source.Expressions
import Ember.Proofs.Source.Programs
import Ember.Proofs.Source.Spelling
import Ember.Proofs.Machine.Limits
import Ember.Proofs.Heap.Cycles
import Ember.Proofs.Machine.Deliveries
import Ember.Proofs.Output.Captures
import Ember.Proofs.Machine.Leaks
import Ember.Proofs.Machine.Presence
import Ember.Proofs.Machine.Tracing
import Ember.Proofs.Output.Pages
import Ember.Proofs.Value.Integers
import Ember.Proofs.Code.WellFormed
import Ember.Proofs.Source.Tiles
import Ember.Proofs.Source.Bounds
import Ember.Proofs.Source.Prefixes
import Ember.Proofs.Text.Boundaries
import Ember.Proofs.Output.Characters
import Ember.Proofs.Output.Room
import Ember.Proofs.Source.Ends

import Folio.Codec.Value
import Folio.Record.Copy
import Folio.Lock.Room
import Folio.Text.Decimal
import Folio.Text.Quoted
import Folio.Cache.Report
import Folio.Transaction.Registry
import Folio.Store
import Folio.Toml.Document
import Folio.Settings.Toml
import Folio.Level
import Folio.Database
import Folio.Proofs.Codec.Varint
import Folio.Proofs.Codec.Reads
import Folio.Proofs.Codec.Extent
import Folio.Proofs.Codec.Copying
import Folio.Proofs.Record.RoundTrip
import Folio.Proofs.Record.Stream
import Folio.Proofs.Record.Copying
import Folio.Proofs.Cache.Recency
import Folio.Proofs.Cache.Eviction
import Folio.Proofs.Cache.Operation
import Folio.Proofs.Cache.Labels
import Folio.Proofs.Cache.Departures
import Folio.Proofs.Cache.Soundness
import Folio.Proofs.Cache.Shares
import Folio.Proofs.Cache.Filing
import Folio.Proofs.Cache.Run
import Folio.Proofs.Cache.Tenancy
import Folio.Proofs.Cache.Naming
import Folio.Proofs.Cache.Pins
import Folio.Proofs.Cache.Saving
import Folio.Proofs.Lock.Steps
import Folio.Proofs.Lock.Safety
import Folio.Proofs.Lock.Interruption
import Folio.Proofs.Lock.Settling
import Folio.Proofs.Transaction.Ledger
import Folio.Proofs.Transaction.Hall
import Folio.Proofs.Transaction.Agreement
import Folio.Proofs.Store.Writing
import Folio.Proofs.Database.Holdings
import Folio.Proofs.Database.Steps
import Folio.Proofs.Database.Session
import Folio.Proofs.Database.Contents
import Folio.Proofs.Database.Holds
import Folio.Proofs.Database.Isolation
import Folio.Proofs.Database.Handles
import Folio.Proofs.Cache.Commitment
import Folio.Proofs.Codec.Truncation
import Folio.Proofs.Record.Truncation
import Folio.Proofs.Transaction.Chronicle
import Folio.Proofs.Transaction.Roster
import Folio.Proofs.Codec.Exactness
import Folio.Proofs.Record.Legacy
import Folio.Proofs.Database.Opening
import Folio.Proofs.Database.Names
import Folio.Proofs.Database.Writes
import Folio.Proofs.Database.Annals
import Folio.Proofs.Database.Flushing
import Folio.Proofs.Codec.Values
import Folio.Proofs.Cache.Flushes
import Folio.Proofs.Cache.Eligibility
import Folio.Proofs.Cache.Adding
import Folio.Proofs.Cache.Resizing
import Folio.Proofs.Codec.Atomicity
import Folio.Proofs.Record.Atomicity
import Folio.Proofs.Codec.Skipping
import Folio.Proofs.Record.Skipping
import Folio.Proofs.Codec.Canonical
import Folio.Proofs.Record.Canonical
import Folio.Proofs.Record.Upgrade
import Folio.Proofs.Database.WritingBack
import Folio.Proofs.Cache.Idle
import Folio.Proofs.Cache.Inclusion
import Folio.Proofs.Cache.Statistics
import Folio.Proofs.Store.Consistency
import Folio.Proofs.Codec.Calls
import Folio.Proofs.Codec.Draining
import Folio.Proofs.Codec.Words
import Folio.Proofs.Codec.Measuring
import Folio.Proofs.Codec.Taking
import Folio.Proofs.Codec.Mirroring
import Folio.Proofs.Codec.Programs
import Folio.Proofs.Record.Calls
import Folio.Proofs.Record.Faultless
import Folio.Proofs.Cache.Window
import Folio.Proofs.Cache.Sequence

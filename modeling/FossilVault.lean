import FossilVault.Bucket.Connection
import FossilVault.Bucket.Listing
import FossilVault.Bucket.Pool
import FossilVault.Bucket.Request
import FossilVault.Bucket.Service
import FossilVault.Catalog
import FossilVault.Console.Command
import FossilVault.Console.Directory
import FossilVault.Console.Place
import FossilVault.Console.Run
import FossilVault.Fault
import FossilVault.Fossil
import FossilVault.Log
import FossilVault.Main
import FossilVault.Number.Double
import FossilVault.Number.Integer
import FossilVault.Number.Nearest
import FossilVault.Program
import FossilVault.Remote.Call
import FossilVault.Remote.Canned
import FossilVault.Remote.Ledger
import FossilVault.Session
import FossilVault.Settings.Basic
import FossilVault.Settings.EnvFile.Binding
import FossilVault.Settings.EnvFile.Variable
import FossilVault.Settings.Load
import FossilVault.Settings.Value
import FossilVault.Text.Basic
import FossilVault.Text.Blank
import FossilVault.Text.Blind
import FossilVault.Text.Control
import FossilVault.Text.Quoted
import FossilVault.Text.Upper
import FossilVault.Text.Utf8
import FossilVault.Throttle
import FossilVault.Transfer.Body
import FossilVault.Transfer.Buffer
import FossilVault.Transfer.Copy
import FossilVault.Transfer.Timed
import FossilVault.Vault
import FossilVault.Version
import FossilVault.Proofs.Operation
import FossilVault.Proofs.Stack
import FossilVault.Proofs.Catalog.Listing
import FossilVault.Proofs.Crew
import FossilVault.Proofs.View
import FossilVault.Proofs.Archive
import FossilVault.Proofs.Archive.Operation
import FossilVault.Proofs.Archive.Transfer
import FossilVault.Proofs.Archive.Effect
import FossilVault.Proofs.Archive.Run
import FossilVault.Proofs.Archive.Faltering
import FossilVault.Proofs.Archive.Revivable
import FossilVault.Proofs.Ledger.ConcurrentHides
import FossilVault.Proofs.Ledger.Contract
import FossilVault.Proofs.Ledger.Look
import FossilVault.Proofs.Ledger.Moves
import FossilVault.Proofs.Ledger.Refinement
import FossilVault.Proofs.Ledger.Revival
import FossilVault.Proofs.Ledger.StoredNames
import FossilVault.Proofs.Ledger.Retry
import FossilVault.Proofs.Bucket.Order
import FossilVault.Proofs.Bucket.Pages
import FossilVault.Proofs.Bucket.Provider
import FossilVault.Proofs.Bucket.Paced
import FossilVault.Proofs.Bucket.Purge
import FossilVault.Proofs.Bucket.Agreement
import FossilVault.Proofs.Directory
import FossilVault.Proofs.Calls
import FossilVault.Proofs.Turns
import FossilVault.Proofs.Archive.Crews
import FossilVault.Proofs.Archive.ConcurrentDeletions
import FossilVault.Proofs.Failures
import FossilVault.Proofs.Streams
import FossilVault.Proofs.Ledger.Failures
import FossilVault.Proofs.Tokens
import FossilVault.Proofs.Bucket.RoundTrip
import FossilVault.Proofs.Alike
import FossilVault.Proofs.Errands
import FossilVault.Proofs.Ledger.Skipping
import FossilVault.Proofs.Ledger.WorkersApart
import FossilVault.Proofs.Settings.Precedence
import FossilVault.Proofs.Exchanges
import FossilVault.Proofs.Bucket.Confinement
import FossilVault.Proofs.Throttles
import FossilVault.Proofs.Drawing
import FossilVault.Proofs.Bucket.Budget
import FossilVault.Proofs.Agree
import FossilVault.Proofs.Bucket.Twins
import FossilVault.Proofs.Bucket.Attaching
import FossilVault.Proofs.Console.Lines
import FossilVault.Proofs.Console.Refinement
import FossilVault.Proofs.Paired
import FossilVault.Proofs.Bucket.Keys
import FossilVault.Proofs.Console.Secrecy
import FossilVault.Proofs.Bucket.Posted
import FossilVault.Proofs.Bucket.Pagination
import FossilVault.Proofs.Copying
import FossilVault.Proofs.Reading
import FossilVault.Proofs.Ledger.Purge
import FossilVault.Proofs.Ledger.Snapshots
import FossilVault.Proofs.Ledger.PrefixListings
import FossilVault.Proofs.Settings.Export
import FossilVault.Proofs.Leaders
import FossilVault.Proofs.Projection

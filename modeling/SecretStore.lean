import SecretStore.Cancellation.Session
import SecretStore.Config.Connect
import SecretStore.Config.Location
import SecretStore.Config.Write
import SecretStore.CredHub.Session
import SecretStore.FixedStore
import SecretStore.Flight.Session
import SecretStore.Json.Value
import SecretStore.Log
import SecretStore.Proofs.Flight.Crowd
import SecretStore.Proofs.Flight.Exclusion
import SecretStore.Proofs.Flight.Provenance
import SecretStore.Proofs.Flight.Evolution
import SecretStore.Proofs.Base64
import SecretStore.Proofs.CredHub.Value
import SecretStore.Proofs.Json.Spelling
import SecretStore.Proofs.Http.Program
import SecretStore.Proofs.Json.Written
import SecretStore.Proofs.CredHub.Operation
import SecretStore.Proofs.CredHub.Server
import SecretStore.Proofs.CredHub.Codec
import SecretStore.Proofs.CredHub.Refinement
import SecretStore.Proofs.Http.Steps
import SecretStore.Proofs.Http.Contract
import SecretStore.Proofs.CredHub.Conduct
import SecretStore.Proofs.CredHub.Service
import SecretStore.Proofs.CredHub.Insight
import SecretStore.Proofs.CredHub.Standing
import SecretStore.Proofs.CredHub.CreateOnce
import SecretStore.Proofs.Http.Query
import SecretStore.Proofs.CredHub.Asked
import SecretStore.Proofs.Http.Address
import SecretStore.Proofs.CredHub.Naming
import SecretStore.Proofs.CredHub.Course
import SecretStore.Proofs.CredHub.Discipline
import SecretStore.Proofs.Flight.Polling
import SecretStore.Proofs.Flight.Queues
import SecretStore.Proofs.Flight.Sweeps
import SecretStore.Proofs.Flight.Mirror
import SecretStore.Proofs.Flight.Settling
import SecretStore.Proofs.Flight.Refinement
import SecretStore.Proofs.CredHub.Interchange
import SecretStore.Proofs.CredHub.Acknowledged
import SecretStore.Proofs.Flight.HandOver
import SecretStore.Proofs.Flight.Joining
import SecretStore.Proofs.Http.Redirect
import SecretStore.Proofs.Json.Grammar
import SecretStore.Proofs.Json.Members
import SecretStore.Proofs.CredHub.Versions
import SecretStore.Proofs.Http.Alike
import SecretStore.Proofs.Flight.Alike
import SecretStore.Proofs.CredHub.Blindness
import SecretStore.Proofs.CredHub.Twins
import SecretStore.Proofs.CredHub.Secrecy
import SecretStore.Proofs.Related
import SecretStore.Proofs.Cancellation.Waiters
import SecretStore.Proofs.Cancellation.Threads
import SecretStore.Proofs.CredHub.Isolation
import SecretStore.Proofs.Http.Heeding
import SecretStore.Proofs.CredHub.Heeding
import SecretStore.Proofs.CredHub.Obeying
import SecretStore.Proofs.CredHub.Settling
import SecretStore.Proofs.CredHub.Vigil
import SecretStore.Proofs.Yaml.Passage
import SecretStore.Proofs.Yaml.Quoted
import SecretStore.Proofs.Yaml.Plain
import SecretStore.Proofs.Yaml.Literal
import SecretStore.Proofs.Yaml.Scan
import SecretStore.Proofs.Yaml.Styles
import SecretStore.Proofs.Yaml.Tokens
import SecretStore.Proofs.Yaml.Keys
import SecretStore.Proofs.Yaml.Members
import SecretStore.Proofs.Yaml.Events
import SecretStore.Proofs.Yaml.Readers
import SecretStore.Proofs.FixedStore
import SecretStore.Proofs.Config
import SecretStore.Proofs.KeyCursor
import SecretStore.Proofs.Text.Order
import SecretStore.Proofs.Json.Spelt
import SecretStore.Proofs.Json.Passed
import SecretStore.Proofs.Json.Forms
import SecretStore.Proofs.Json.Records
import SecretStore.Proofs.Http.Delivery
import SecretStore.Proofs.CredHub.Shapes
import SecretStore.Proofs.CredHub.Conclusions
import SecretStore.Proofs.CredHub.Listing
import SecretStore.Proofs.CredHub.Agreement
import SecretStore.Proofs.Json.Entries
import SecretStore.Proofs.Json.Gathering
import SecretStore.Proofs.Json.Richer
import SecretStore.Proofs.CredHub.Surplus
import SecretStore.Proofs.CredHub.Checks
import SecretStore.Proofs.Http.Reading
import SecretStore.Proofs.Http.Accounts
import SecretStore.Proofs.CredHub.Accounts
import SecretStore.Proofs.CredHub.Ledger
import SecretStore.Proofs.CredHub.Warnings
import SecretStore.Proofs.CredHub.Wholeness
import SecretStore.Proofs.KeyCursor.Walk
import SecretStore.Proofs.Text.Lossy
import SecretStore.Proofs.Tls.Marks
import SecretStore.Proofs.Flight.Rejoining

import RestQuery.Files.Disk
import RestQuery.Main
import RestQuery.Text.Utf8.Lemmas
import RestQuery.Proofs.Query.ReadLaws
import RestQuery.Proofs.Query.Entrywise
import RestQuery.Proofs.Query.Sound
import RestQuery.Proofs.Parameters.Encoding
import RestQuery.Proofs.Parameters.Entries
import RestQuery.Proofs.Parameters.Histories
import RestQuery.Proofs.Query.Rendering
import RestQuery.Proofs.Query.Pages
import RestQuery.Proofs.Query.Dependence
import RestQuery.Proofs.Request.PathLaws
import RestQuery.Proofs.Request.Routes
import RestQuery.Proofs.Request.Addresses
import RestQuery.Proofs.Request.Growth
import RestQuery.Proofs.Request.DeclarationOrder
import RestQuery.Proofs.Toml.ScanLaws
import RestQuery.Proofs.Toml.Strings
import RestQuery.Proofs.Toml.Values
import RestQuery.Proofs.Toml.Lines
import RestQuery.Proofs.Files.DiskLaws
import RestQuery.Proofs.Files.Directories
import RestQuery.Proofs.Files.Effects
import RestQuery.Proofs.Toml.Documents
import RestQuery.Proofs.Schema.RoundTrip
import RestQuery.Proofs.Settings.Saving
import RestQuery.Proofs.Command.Runs
import RestQuery.Proofs.Command.Agreement
import RestQuery.Proofs.Command.Initialization
import RestQuery.Proofs.Blame
import RestQuery.Proofs.Json.Lossless
import RestQuery.Proofs.Command.Printed
import RestQuery.Proofs.Files.Making
import RestQuery.Proofs.Command.Footprint
import RestQuery.Proofs.Query.AskedWindow
import RestQuery.Proofs.Query.ListKeys
import RestQuery.Proofs.Query.Collapse
import RestQuery.Proofs.Query.FilterKeys
import RestQuery.Proofs.Schema.FirstOffence
import RestQuery.Proofs.Text.Pieces

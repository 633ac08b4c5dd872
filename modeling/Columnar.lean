import Columnar.Binary64
import Columnar.Block.Compressed
import Columnar.Block.Format
import Columnar.Block.Values
import Columnar.Block.View
import Columnar.Bytes
import Columnar.Bytes.Utf8
import Columnar.Checksum
import Columnar.Command.Arguments
import Columnar.Command.Failure
import Columnar.Command.Folder
import Columnar.Command.Host
import Columnar.Command.Level
import Columnar.Command.Path
import Columnar.Command.ScanCommand
import Columnar.Command.Start
import Columnar.Command.Synthetic
import Columnar.Command.TableTool
import Columnar.Decimal.Fixed
import Columnar.Decimal.Nearest
import Columnar.Decimal.Shortest
import Columnar.Error
import Columnar.Lz4
import Columnar.Main
import Columnar.Proofs.CatalogCodec
import Columnar.Proofs.Tiling
import Columnar.Scan.Bucket
import Columnar.Scan.Histogram
import Columnar.Scan.MemoryTable
import Columnar.Scan.Pass
import Columnar.Scan.Profile
import Columnar.Scan.Report
import Columnar.Scan.Source
import Columnar.Scan.Timing
import Columnar.Scratch
import Columnar.Settings
import Columnar.Settings.Data
import Columnar.Settings.Fault
import Columnar.Settings.Json
import Columnar.Settings.Node
import Columnar.Settings.Path
import Columnar.Settings.Reading
import Columnar.Settings.Toml
import Columnar.Settings.Toml.Moment
import Columnar.Settings.Toml.Number
import Columnar.Settings.Toml.Section
import Columnar.Settings.Toml.Token
import Columnar.Sink
import Columnar.Table.Catalog
import Columnar.Table.Catalog.Codec
import Columnar.Table.Catalog.Layout
import Columnar.Table.Catalog.Listing
import Columnar.Table.Cursor
import Columnar.Table.Dump
import Columnar.Table.File
import Columnar.Table.Footer
import Columnar.Table.Header
import Columnar.Table.Table
import Columnar.Table.Writer
import Columnar.Text.Pretty
import Columnar.Text.Printable
import Columnar.Text.Quoted
import Columnar.Text.Whole
import Columnar.Proofs.Reading
import Columnar.Proofs.Guarded
import Columnar.Proofs.Writing
import Columnar.Proofs.TextReading
import Columnar.Proofs.NearestDouble
import Columnar.Proofs.ShortestDecimal
import Columnar.Proofs.DecimalText
import Columnar.Proofs.RoundTrip
import Columnar.Proofs.AnyFile
import Columnar.Proofs.Counting
import Columnar.Proofs.InMemory
import Columnar.Proofs.Agreement
import Columnar.Proofs.Session
import Columnar.Proofs.Locality
import Columnar.Proofs.MergedOrder
import Columnar.Proofs.Trace
import Columnar.Proofs.Failing
import Columnar.Proofs.Cutting
import Columnar.Proofs.Calls
import Columnar.Proofs.FileLayout
import Columnar.Proofs.Burst
import Columnar.Proofs.Corruption
import Columnar.Proofs.ReadCounts
import Columnar.Proofs.Profiling
import Columnar.Proofs.CanonicalCatalog
import Columnar.Proofs.LayoutRule
import Columnar.Proofs.FooterReach
import Columnar.Proofs.ExactSums
import Columnar.Proofs.BlockCodec
import Columnar.Proofs.CompleteBlocks
import Columnar.Proofs.Sequences
import Columnar.Proofs.Recovery
import Columnar.Proofs.Lending
import Columnar.Proofs.Growth
import Columnar.Proofs.Builders
import Columnar.Proofs.Reloading
import Columnar.Proofs.Doubles
import Columnar.Proofs.Rounding
import Columnar.Proofs.WholeDoubles
import Columnar.Proofs.BucketKeys
import Columnar.Proofs.HeaderCodec
import Columnar.Proofs.Accounting
import Columnar.Proofs.FullOutput
import Columnar.Proofs.Dumping
import Columnar.Proofs.BlockSearch
import Columnar.Proofs.FooterCodec
import Columnar.Proofs.HistogramCalls
import Columnar.Proofs.ReportReading

import TapeBasic.Binary64
import TapeBasic.Cassette
import TapeBasic.Chunks
import TapeBasic.Command
import TapeBasic.Command.Decode
import TapeBasic.Command.Encode
import TapeBasic.Command.Failure
import TapeBasic.Command.Info
import TapeBasic.Command.Load
import TapeBasic.Command.Report
import TapeBasic.Command.Request
import TapeBasic.Command.Screen
import TapeBasic.Decimal.Layout
import TapeBasic.Decimal.Shortest
import TapeBasic.Display
import TapeBasic.Extent
import TapeBasic.Grammar
import TapeBasic.Host
import TapeBasic.Image
import TapeBasic.Journal
import TapeBasic.Listing
import TapeBasic.Listing.Numbers
import TapeBasic.Listing.Piece
import TapeBasic.Listing.Separation
import TapeBasic.Listing.Slip
import TapeBasic.Literal
import TapeBasic.Main
import TapeBasic.Path
import TapeBasic.Picture
import TapeBasic.Picture.Painter
import TapeBasic.Powers
import TapeBasic.Program
import TapeBasic.Session
import TapeBasic.Session.Directory
import TapeBasic.Session.Options
import TapeBasic.Session.Png
import TapeBasic.Session.Request
import TapeBasic.Session.Sheet
import TapeBasic.Session.Terminal
import TapeBasic.Settings
import TapeBasic.Source.Assembly
import TapeBasic.Source.Body
import TapeBasic.Source.Cursor
import TapeBasic.Source.Directive
import TapeBasic.Source.Encoding
import TapeBasic.Source.Fault
import TapeBasic.Source.File
import TapeBasic.Source.Line
import TapeBasic.Source.SpecialCode
import TapeBasic.StoredNumber
import TapeBasic.SystemVariables
import TapeBasic.SystemVariables.Field
import TapeBasic.Text.Blank
import TapeBasic.Text.Case
import TapeBasic.Text.Digit
import TapeBasic.Text.Fold
import TapeBasic.Text.Letter
import TapeBasic.Text.Numeral
import TapeBasic.Text.Plain
import TapeBasic.Text.Quoted
import TapeBasic.Text.Ranges
import TapeBasic.Token
import TapeBasic.Proofs.Literals
import TapeBasic.Proofs.Spellings
import TapeBasic.Proofs.TokenTable
import TapeBasic.Proofs.ReaderResults
import TapeBasic.Proofs.Reading
import TapeBasic.Proofs.Pieces
import TapeBasic.Proofs.SettledNumbers
import TapeBasic.Proofs.SeparatedLines
import TapeBasic.Proofs.LineRoundTrip
import TapeBasic.Proofs.StoredPrograms
import TapeBasic.Proofs.ListingRuns
import TapeBasic.Proofs.ProgramRoundTrip
import TapeBasic.Proofs.EncodedPrograms
import TapeBasic.Proofs.ImageAreas
import TapeBasic.Proofs.MemoryLayout
import TapeBasic.Proofs.Directives
import TapeBasic.Proofs.HeaderRuns
import TapeBasic.Proofs.ScreenRows
import TapeBasic.Proofs.FieldUpdates
import TapeBasic.Proofs.FieldDifferences
import TapeBasic.Proofs.ImageRoundTrip
import TapeBasic.Proofs.AsciiSpellings
import TapeBasic.Proofs.CheckedListing
import TapeBasic.Proofs.PairedReading
import TapeBasic.Proofs.LineBounds
import TapeBasic.Proofs.ShownLines
import TapeBasic.Proofs.ShownTexts
import TapeBasic.Proofs.DirectiveBounds
import TapeBasic.Proofs.OutsideListing
import TapeBasic.Proofs.KeptImages
import TapeBasic.Proofs.PlainPieces
import TapeBasic.Proofs.PlainSpellings
import TapeBasic.Proofs.PlainListing
import TapeBasic.Proofs.PlainLines
import TapeBasic.Proofs.PlainSource
import TapeBasic.Proofs.CodecFaults
import TapeBasic.Proofs.CaselessListings
import TapeBasic.Proofs.Items
import TapeBasic.Proofs.Reordering
import TapeBasic.Proofs.JoinedListings
import TapeBasic.Proofs.RecordListings
import TapeBasic.Proofs.CommandFiles
import TapeBasic.Proofs.WrittenPaths
import TapeBasic.Proofs.CassetteNames
import TapeBasic.Proofs.EncodedFiles
import TapeBasic.Proofs.HeaderLines
import TapeBasic.Proofs.StartLine
import TapeBasic.Proofs.RecordWalks
import TapeBasic.Proofs.KeptFields
import TapeBasic.Proofs.KeptPictures
import TapeBasic.Proofs.StoredValues
import TapeBasic.Proofs.NearestNumbers
import TapeBasic.Proofs.BracketBounds
import TapeBasic.Proofs.LonghandCodes
import TapeBasic.Proofs.SeparationPasses
import TapeBasic.Proofs.LiteralScan
import TapeBasic.Proofs.LongestSpellings
import TapeBasic.Proofs.PixelGrid
import TapeBasic.Proofs.PaintedPictures
import TapeBasic.Proofs.ReadingFaults
import TapeBasic.Proofs.ItemTexts
import TapeBasic.Proofs.SystemFields
import TapeBasic.Proofs.ListedAreas
import TapeBasic.Proofs.LetterCase
import TapeBasic.Proofs.PassStates
import TapeBasic.Proofs.Numerals
import TapeBasic.Proofs.Places
import TapeBasic.Proofs.CommandFailures
import TapeBasic.Proofs.HostLaws

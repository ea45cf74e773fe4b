import Typings.Text.Offset
import Typings.Declaration.Edit
import Typings.Declaration.Lookup
import Typings.Declaration.Sample
import Typings.Main
import Typings.Proofs.Layout.Visible
import Typings.Proofs.Merging.Outcome
import Typings.Proofs.Documentation.Closing
import Typings.Proofs.Merging.PassThrough
import Typings.Proofs.Merging.Text
import Typings.Proofs.Layout.Separation
import Typings.Proofs.Merging.Documentation
import Typings.Proofs.Documentation.NormalForm
import Typings.Proofs.Merging.LineEnds
import Typings.Proofs.Documentation.Json
import Typings.Proofs.Layout.Banner
import Typings.Proofs.Documentation.Attachment
import Typings.Proofs.Documentation.Markers
import Typings.Proofs.Merging.Seams
import Typings.Proofs.Documentation.Spacing
import Typings.Proofs.Reading.Lookup
import Typings.Proofs.CommandLine.Precedence

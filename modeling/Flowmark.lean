import Flowmark.Export.Format
import Flowmark.Settings.Json
import Flowmark.Proofs.Argument.Reading
import Flowmark.Proofs.Skeleton.RoundTrip
import Flowmark.Proofs.Model.Bindings
import Flowmark.Proofs.Model.Handover
import Flowmark.Proofs.Model.Promotion
import Flowmark.Proofs.Model.Registration
import Flowmark.Proofs.Model.Sharing
import Flowmark.Proofs.Model.Standalone
import Flowmark.Proofs.Model.Structure
import Flowmark.Proofs.Run.Concatenation
import Flowmark.Proofs.Run.Spelling
import Flowmark.Proofs.Export.Format
import Flowmark.Proofs.Markup.Extension
import Flowmark.Proofs.Markup.Partition
import Flowmark.Proofs.Skeleton.Indentation
import Flowmark.Proofs.Settings.Json

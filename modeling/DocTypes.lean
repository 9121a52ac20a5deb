import DocTypes.Collection
import DocTypes.Decimal.Reading
import DocTypes.Settings
import DocTypes.Source.Header
import DocTypes.Proofs.GlobalBlocks
import DocTypes.Proofs.Caching
import DocTypes.Proofs.Declared
import DocTypes.Proofs.Header
import DocTypes.Proofs.Rendering
import DocTypes.Proofs.HeaderEnd
import DocTypes.Proofs.Segments
import DocTypes.Proofs.Kinds
import DocTypes.Proofs.Growth
import DocTypes.Proofs.Scanning
import DocTypes.Proofs.ClassLines
import DocTypes.Proofs.Arrays
import DocTypes.Proofs.Members
import DocTypes.Proofs.Grammar
import DocTypes.Proofs.ImportLists
import DocTypes.Proofs.LineEnds
import DocTypes.Proofs.Literals
import DocTypes.Proofs.Aliases
import DocTypes.Proofs.NormalForm

import Advisor.Main
import Advisor.Proofs.Command.Views
import Advisor.Proofs.JavaScript.Grouping
import Advisor.Proofs.JavaScript.Literal
import Advisor.Proofs.JavaScript.Regions
import Advisor.Proofs.JavaScript.Separation
import Advisor.Proofs.JavaScript.Unambiguous
import Advisor.Proofs.Partition.Edits
import Advisor.Proofs.Partition.LastWins
import Advisor.Proofs.Partition.Warnings
import Advisor.Proofs.Render.Alike
import Advisor.Proofs.Render.Emission
import Advisor.Proofs.Render.Filling
import Advisor.Proofs.Render.LocalNames
import Advisor.Proofs.Render.Number
import Advisor.Proofs.Settings.Reading
import Advisor.Proofs.Translation.Callees
import Advisor.Proofs.Translation.Clashes
import Advisor.Proofs.Translation.Descriptors
import Advisor.Proofs.Translation.InitialOrder
import Advisor.Proofs.Translation.Methods
import Advisor.Proofs.Translation.Normal
import Advisor.Proofs.Translation.Qualification
import Advisor.Proofs.Translation.Reordering
import Advisor.Proofs.Wire.Direct
import Advisor.Proofs.Wire.Encoding
import Advisor.Proofs.Wire.Nesting
import Advisor.Proofs.Wire.Respelling
import Advisor.Proofs.Wire.Script
import Advisor.Proofs.Wire.Trail

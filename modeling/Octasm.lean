import Octasm.Main
import Octasm.Workspace
import Octasm.Proofs.Assembly.Coherence
import Octasm.Proofs.Assembly.Decoding
import Octasm.Proofs.Assembly.Extension
import Octasm.Proofs.Assembly.Insertion
import Octasm.Proofs.Assembly.LineEndings
import Octasm.Proofs.Assembly.Relocation
import Octasm.Proofs.Assembly.Undefined
import Octasm.Proofs.Case.Assembly
import Octasm.Proofs.Assembly.Reference
import Octasm.Proofs.Labels.History
import Octasm.Proofs.Assembly.Refusal
import Octasm.Proofs.Instruction.Answer
import Octasm.Proofs.Session.Effect
import Octasm.Proofs.Statement.Matching
import Octasm.Proofs.Operand.Spelling
import Octasm.Proofs.Operand.Value
import Octasm.Proofs.Statement.Comment
import Octasm.Proofs.Assembly.Word
import Octasm.Proofs.Assembly.StringData
import Octasm.Proofs.Listing
import Octasm.Proofs.Image
import Octasm.Proofs.Symbols

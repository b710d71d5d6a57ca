import NodeGen.File.Edit
import NodeGen.Main
import NodeGen.Output.Generate
import NodeGen.Proofs.Annotations
import NodeGen.Proofs.Confinement
import NodeGen.Proofs.Declared
import NodeGen.Proofs.Diagnoses
import NodeGen.Proofs.Drift
import NodeGen.Proofs.FirstFault
import NodeGen.Proofs.Moments
import NodeGen.Proofs.OneByOne
import NodeGen.Proofs.OneFile
import NodeGen.Proofs.Oversized
import NodeGen.Proofs.RepeatedKeys
import NodeGen.Proofs.Reprinting
import NodeGen.Proofs.Rerun
import NodeGen.Proofs.Spelling
import NodeGen.Proofs.Untouched
import NodeGen.Proofs.Verdicts
import NodeGen.Proofs.Visitor
import NodeGen.Proofs.Writers

import MixedMonotone.Binary64.Scalar
import MixedMonotone.Session
import MixedMonotone.Settings.Toml
import MixedMonotone.Proofs.Enclosure
import MixedMonotone.Proofs.Simulation
import MixedMonotone.Proofs.Representation
import MixedMonotone.Proofs.TagFree
import MixedMonotone.Proofs.ProgramShape
import MixedMonotone.Proofs.Residue
import MixedMonotone.Proofs.Feasibility
import MixedMonotone.Proofs.Coherence
import MixedMonotone.Proofs.Interning
import MixedMonotone.Proofs.Tightness
import MixedMonotone.Proofs.Reports
import MixedMonotone.Proofs.Interleaving
import MixedMonotone.Proofs.Packing
import MixedMonotone.Proofs.Products
import MixedMonotone.Proofs.Chains
import MixedMonotone.Proofs.ConstantTable
import MixedMonotone.Proofs.Conjunction
import MixedMonotone.Proofs.Declaring
import MixedMonotone.Proofs.Dumps
import MixedMonotone.Proofs.Overflow
import MixedMonotone.Proofs.Variables

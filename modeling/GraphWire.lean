import GraphWire.Proofs.Fidelity
import GraphWire.Proofs.Losses
import GraphWire.Proofs.Breaches
import GraphWire.Proofs.Balance
import GraphWire.Proofs.Streaming
import GraphWire.Proofs.Replicas
import GraphWire.Proofs.Sharing
import GraphWire.Proofs.Truncation
import GraphWire.Proofs.Numbering
import GraphWire.Proofs.Identity
import GraphWire.Proofs.Normalising
import GraphWire.Proofs.Depths
import GraphWire.Proofs.Sequences
import GraphWire.Proofs.Usage
import GraphWire.Proofs.Grounding
import GraphWire.Proofs.Bulk
import GraphWire.Proofs.Bound
import GraphWire.Proofs.Enrolment
import GraphWire.Proofs.Foresight
import GraphWire.Proofs.Hashing
import GraphWire.Proofs.Filling
import GraphWire.Proofs.Tolls
import GraphWire.Proofs.Refusals
import GraphWire.Proofs.Filing
import GraphWire.Proofs.Occurrences

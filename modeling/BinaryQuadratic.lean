import BinaryQuadratic.Relaxation.Routine
import BinaryQuadratic.Search
import BinaryQuadratic.Session
import BinaryQuadratic.Calls
import BinaryQuadratic.Proofs.StrongBranching
import BinaryQuadratic.Proofs.Storage
import BinaryQuadratic.Proofs.Calls
import BinaryQuadratic.Proofs.Search.Partition
import BinaryQuadratic.Proofs.Search.Optimum
import BinaryQuadratic.Proofs.Search.Recorded
import BinaryQuadratic.Proofs.Search.Ties
import BinaryQuadratic.Proofs.Advisory
import BinaryQuadratic.Proofs.Regrouping
import BinaryQuadratic.Proofs.Search.Ending
import BinaryQuadratic.Proofs.Comparisons
import BinaryQuadratic.Proofs.Approximations
import BinaryQuadratic.Proofs.Readers
import BinaryQuadratic.Proofs.Paths
import BinaryQuadratic.Proofs.Objective
import BinaryQuadratic.Proofs.CommonValue
import BinaryQuadratic.Proofs.NearestHalf
import BinaryQuadratic.Proofs.CircularScan
import BinaryQuadratic.Proofs.RandomPoints
import BinaryQuadratic.Proofs.Options
import BinaryQuadratic.Proofs.Export

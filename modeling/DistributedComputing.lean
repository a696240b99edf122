import DistributedComputing.Runtime.TaskQueueWaking
import DistributedComputing.Coordinator.SchedulerStats
import DistributedComputing.Coordinator.LoadAgreement
import DistributedComputing.Coordinator.Availability
import DistributedComputing.Coordinator.FailedSend
import DistributedComputing.Coordinator.Lifetime
import DistributedComputing.Worker.ClusterHead
import DistributedComputing.Worker.Distribution
import DistributedComputing.Worker.ClusterShutdown
import DistributedComputing.Worker.Executor
import DistributedComputing.System.Delivery
import DistributedComputing.System.Wire
import DistributedComputing.Net.ZmqBroadcast
import DistributedComputing.Net.MpiProbe
import DistributedComputing.Net.Interchange
import DistributedComputing.Storage.MetadataCorruption
import DistributedComputing.Storage.SanitiseKey
import DistributedComputing.Storage.TaskRecords
import DistributedComputing.Storage.Hdf5Query
import DistributedComputing.Storage.TaskResults
import DistributedComputing.Fortran.Interpolation
import DistributedComputing.Fortran.Rng
import DistributedComputing.Fortran.Tridiagonal
import DistributedComputing.Fortran.Cholesky
import DistributedComputing.Fortran.MatrixPower
import DistributedComputing.Fortran.QrDecomposition
import DistributedComputing.Fortran.LbfgsHistory
import DistributedComputing.Fortran.ConjugateGradient
import DistributedComputing.Fortran.BackwardEuler
import DistributedComputing.Fortran.RungeKutta
import DistributedComputing.Fortran.DormandPrince
import DistributedComputing.Fortran.LineSearches
import DistributedComputing.Fortran.Secant
import DistributedComputing.Fortran.TransposeTwice
import DistributedComputing.Fortran.FvConservation
import DistributedComputing.Fortran.FvMaximum
import DistributedComputing.Fortran.FvAgreement
import DistributedComputing.Fortran.FvReconstruct
import DistributedComputing.Fortran.FdGrid
import DistributedComputing.Fortran.FdExactness
import DistributedComputing.Fortran.SpectralMultipliers

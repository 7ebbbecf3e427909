import EnsembleSampling.Unconstrain.Writer
import EnsembleSampling.Random.Call
import EnsembleSampling.Workbench
import EnsembleSampling.Ensemble.Scatter
import EnsembleSampling.Run.Report
import EnsembleSampling.Grouped.Run
import EnsembleSampling.Proofs.Run.Affine
import EnsembleSampling.Proofs.Run.Faithful
import EnsembleSampling.Proofs.Run.Cached
import EnsembleSampling.Proofs.Run.Support
import EnsembleSampling.Proofs.Run.Resumed
import EnsembleSampling.Proofs.Run.Schedule
import EnsembleSampling.Proofs.Law.Sweep
import EnsembleSampling.Proofs.Sweep.Simultaneous
import EnsembleSampling.Proofs.Sweep.Reversible
import EnsembleSampling.Proofs.Unconstrain.Log
import EnsembleSampling.Proofs.Unconstrain.Numbers
import EnsembleSampling.Proofs.Unconstrain.Reader
import EnsembleSampling.Proofs.Unconstrain.Composed
import EnsembleSampling.Proofs.Unconstrain.Conditioning
import EnsembleSampling.Proofs.Unconstrain.Escaping
import EnsembleSampling.Proofs.Autocorrelation.LagSums
import EnsembleSampling.Proofs.Run.Failing
import EnsembleSampling.Proofs.Run.Hull
import EnsembleSampling.Proofs.Chain.Reexpressed
import EnsembleSampling.Proofs.Unconstrain.Ordered
import EnsembleSampling.Proofs.Autocorrelation.Window
import EnsembleSampling.Proofs.Unconstrain.Tolerance
import EnsembleSampling.Proofs.Unconstrain.Rescaled
import EnsembleSampling.Proofs.Autocorrelation.Positive
import EnsembleSampling.Proofs.Autocorrelation.Constant
import EnsembleSampling.Proofs.Chain.Tables
import EnsembleSampling.Proofs.Chain.Flattened
import EnsembleSampling.Proofs.Chain.Reconstructed
import EnsembleSampling.Proofs.Position.Scattered
import EnsembleSampling.Proofs.Unconstrain.Filling

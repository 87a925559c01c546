import ScriptWorker.Config.Source
import ScriptWorker.Execution.Machine
import ScriptWorker.Mini.Host
import ScriptWorker.Proofs.Moments
import ScriptWorker.Proofs.Evaluation
import ScriptWorker.Proofs.Loading.Histories
import ScriptWorker.Proofs.Loading.Importing
import ScriptWorker.Proofs.Loading.Reuse
import ScriptWorker.Proofs.Loading.Stopped
import ScriptWorker.Proofs.Loading.Terminating
import ScriptWorker.Proofs.Loading.Windows
import ScriptWorker.Proofs.Passages.Imports
import ScriptWorker.Proofs.Reloading.InCache
import ScriptWorker.Proofs.Scheduling.Charges
import ScriptWorker.Proofs.Scheduling.Final
import ScriptWorker.Proofs.Scheduling.Handing
import ScriptWorker.Proofs.Loading.Failures
import ScriptWorker.Proofs.Config.RoundTrip
import ScriptWorker.Proofs.Reloading.Stamps
import ScriptWorker.Proofs.Scheduling.Timing
import ScriptWorker.Proofs.Sums
import ScriptWorker.Proofs.Compiling.Overlaps
import ScriptWorker.Proofs.Repositories.Finding
import ScriptWorker.Proofs.Scheduling.Releases
import ScriptWorker.Proofs.Scheduling.Horizons
import ScriptWorker.Proofs.Repositories.Listings
import ScriptWorker.Proofs.Reporting.Calls
import ScriptWorker.Proofs.Passages.Holdings
import ScriptWorker.Proofs.Repositories.NormalForms

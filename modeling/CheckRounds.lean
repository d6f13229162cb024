import CheckRounds.Pool.Configured
import CheckRounds.Pool.Run
import CheckRounds.Session.Play
import CheckRounds.Settings.Environment
import CheckRounds.Settings.Json
import CheckRounds.Proofs.Verdict
import CheckRounds.Proofs.WakeUp
import CheckRounds.Proofs.Pool.Batches
import CheckRounds.Proofs.Pool.Journal
import CheckRounds.Proofs.Accounting
import CheckRounds.Proofs.Pool.Mark
import CheckRounds.Proofs.Serial
import CheckRounds.Proofs.Pool.Totals
import CheckRounds.Proofs.CleanSlate
import CheckRounds.Proofs.Pool.Course
import CheckRounds.Proofs.Pool.Leaving
import CheckRounds.Proofs.Shutdown
import CheckRounds.Proofs.LockOrder
import CheckRounds.Proofs.Lifecycle
import CheckRounds.Proofs.Reopening
import CheckRounds.Proofs.Agreement
import CheckRounds.Proofs.Statistics
import CheckRounds.Proofs.RoundLog
import CheckRounds.Proofs.Attendance
import CheckRounds.Proofs.Snapshot
import CheckRounds.Proofs.Moderation
import CheckRounds.Proofs.Quiescence
import CheckRounds.Proofs.Pool.Sole
import CheckRounds.Proofs.LoneDrain
import CheckRounds.Proofs.Spread
import CheckRounds.Proofs.JobByJob
import CheckRounds.Proofs.Parallelism
import CheckRounds.Proofs.Environment
import CheckRounds.Proofs.Shapes
import CheckRounds.Proofs.RoundTrip

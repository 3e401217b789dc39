import Coverage.Files.Volume
import Coverage.Main
import Coverage.Session
import Coverage.Proofs.Inference
import Coverage.Proofs.Multigraph
import Coverage.Proofs.SolverInvariant
import Coverage.Proofs.Aggregation
import Coverage.Proofs.Associations
import Coverage.Proofs.DataReading
import Coverage.Proofs.DataRoundTrip
import Coverage.Proofs.Executions
import Coverage.Proofs.UnitsApart
import Coverage.Proofs.Locality
import Coverage.Proofs.FramedFiles
import Coverage.Proofs.Merging
import Coverage.Proofs.DataTruncation
import Coverage.Proofs.NotesTruncation
import Coverage.Proofs.ByteOrders
import Coverage.Proofs.Sessions
import Coverage.Proofs.Termination
import Coverage.Proofs.Closure
import Coverage.Proofs.Bookkeeping
import Coverage.Proofs.Balance
import Coverage.Proofs.Idempotence
import Coverage.Proofs.DecodedGraphs
import Coverage.Proofs.Readings
import Coverage.Proofs.Accounting
import Coverage.Proofs.Credits
import Coverage.Proofs.FrameReading
import Coverage.Proofs.Acceptance
import Coverage.Proofs.LineCounts
import Coverage.Proofs.SharedLines
import Coverage.Proofs.Insertions
import Coverage.Proofs.DataInsertions
import Coverage.Proofs.NotesInsertions
import Coverage.Proofs.Items
import Coverage.Proofs.ReportViews
import Coverage.Proofs.Mentions
import Coverage.Proofs.LineAttribution

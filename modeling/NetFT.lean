import NetFT.Library.Machine
import NetFT.Client.Quiescence
import NetFT.Client.Wakeup
import NetFT.Client.Rollback
import NetFT.Client.Attempts
import NetFT.Client.Timeout
import NetFT.Client.Epoch
import NetFT.Client.Backoff
import NetFT.Client.Storm
import NetFT.Client.RateLimit
import NetFT.Client.Rates
import NetFT.Client.Sockets
import NetFT.Detail.Codec
import NetFT.Detail.XmlDocument
import NetFT.Discovery
import NetFT.Validate
import NetFT.Detail.XmlVariation
import NetFT.Status
import NetFT.Client.Ledger
import NetFT.Client.Provenance
import NetFT.Client.Policy
import NetFT.Client.Recovery
import NetFT.Client.Contention
import NetFT.Client.FreshStart
import NetFT.Library.FloatingPoint
import NetFT.Calibration
import NetFT.Client.Conversion
import NetFT.Client.Retirement
import NetFT.Client.Destroyer
import NetFT.Client.Termination
import NetFT.Client.Serial
import NetFT.Client.LateCopies
import NetFT.Client.BiasRestart
import NetFT.Library.Simulation
import NetFT.Client.Windows
import NetFT.Client.Polling
import NetFT.Client.Silence
import NetFT.Client.Attended

import PegScan.Main
import PegScan.Files.Tree
import PegScan.Rule.Outline
import PegScan.Hook.Table
import PegScan.Proofs.Peg.Agreement
import PegScan.Proofs.Session.Observers
import PegScan.Proofs.Session.Places
import PegScan.Proofs.Session.Bounds
import PegScan.Proofs.Session.Translation
import PegScan.Proofs.Session.DepthLimit
import PegScan.Proofs.Session.Paths
import PegScan.Proofs.Session.Progress
import PegScan.Proofs.Session.Body
import PegScan.Proofs.Session.FirstMatch
import PegScan.Proofs.Session.Surrounding
import PegScan.Proofs.Scan.Limit
import PegScan.Proofs.Scan.Lines
import PegScan.Proofs.Hook.Compilation
import PegScan.Proofs.CommandLine.Scanning
import PegScan.Proofs.CommandLine.Configuration
import PegScan.Proofs.CommandLine.Preview
import PegScan.Proofs.Config.RoundTrip

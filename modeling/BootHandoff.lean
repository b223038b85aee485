import BootHandoff.Bench.Device
import BootHandoff.Bench.Rig
import BootHandoff.Board.Feature
import BootHandoff.Handoff.Boot
import BootHandoff.ProductData.Blob
import BootHandoff.ProductData.Entries
import BootHandoff.Recovery.Request
import BootHandoff.Training.Run
import BootHandoff.Wait.Poll
import BootHandoff.Proofs.Platform.Alike
import BootHandoff.Proofs.Platform.Asks
import BootHandoff.Proofs.SecureOs.Extent
import BootHandoff.Proofs.SecureOs.Filling
import BootHandoff.Proofs.Image.Sources
import BootHandoff.Proofs.Layout.Faithful
import BootHandoff.Proofs.Image.Copying
import BootHandoff.Proofs.Handoff.Course
import BootHandoff.Proofs.Handoff.Footprint
import BootHandoff.Proofs.Training.Code
import BootHandoff.Proofs.Handoff.Provenance
import BootHandoff.Proofs.Handoff.Cleaning
import BootHandoff.Proofs.Handoff.Carveout
import BootHandoff.Proofs.Handoff.TrustedMemory
import BootHandoff.Proofs.Bench.Steady
import BootHandoff.Proofs.Image.Halting
import BootHandoff.Proofs.Bench.Exact
import BootHandoff.Proofs.ChipId.Packing
import BootHandoff.Proofs.Platform.Extensionality
import BootHandoff.Proofs.Handoff.Completeness
import BootHandoff.Proofs.Handoff.Failure
import BootHandoff.Proofs.Handoff.Safety
import BootHandoff.Proofs.Handoff.Retry
import BootHandoff.Proofs.Handoff.Indifference
import BootHandoff.Proofs.Platform.Replay
import BootHandoff.Proofs.KeyStore.Reading
import BootHandoff.Proofs.RootKey.Reading
import BootHandoff.Proofs.SecureOs.Course
import BootHandoff.Proofs.Platform.Visit
import BootHandoff.Proofs.SecureOs.Contents
import BootHandoff.Proofs.ChipId.Restoring
import BootHandoff.Proofs.SecureOs.Refilling
import BootHandoff.Proofs.SecureOs.Secrets
import BootHandoff.Proofs.Handoff.Blocks
import BootHandoff.Proofs.ProductData.Walk
import BootHandoff.Proofs.ProductData.Encoding
import BootHandoff.Proofs.ProductData.Placement
import BootHandoff.Proofs.Bench.Showing
import BootHandoff.Proofs.KeyStore.FromFlash
import BootHandoff.Proofs.Crc8.Reversal
import BootHandoff.Proofs.Crc8.Division
import BootHandoff.Proofs.Crc8.Errors
import BootHandoff.Proofs.Recovery.Detection
import BootHandoff.Proofs.Recovery.Requests
import BootHandoff.Proofs.ChipId.Numbering
import BootHandoff.Proofs.RootKey.Area
import BootHandoff.Proofs.Layout.Interchange
import BootHandoff.Proofs.RootKey.Checking
import BootHandoff.Proofs.Handoff.Visits
import BootHandoff.Proofs.Platform.Registers
import BootHandoff.Proofs.ChipId.Visibility
import BootHandoff.Proofs.ChipId.Tiling
import BootHandoff.Proofs.SecureOs.Failing
import BootHandoff.Proofs.RootKey.Conditions
import BootHandoff.Proofs.KeyStore.Wiping
import BootHandoff.Proofs.Training.Running
import BootHandoff.Proofs.Training.Answer
import BootHandoff.Proofs.Wait.Polling
import BootHandoff.Proofs.Wait.Deadline
import BootHandoff.Proofs.Platform.Sameness
import BootHandoff.Proofs.Image.Fallback
import BootHandoff.Proofs.ProductData.Locating
import BootHandoff.Proofs.ProductData.Addressing
import BootHandoff.Proofs.ProductData.Extension
import BootHandoff.Proofs.Verified.Region
import BootHandoff.Proofs.Flash.Subrange
import BootHandoff.Proofs.Board.Choice

import EfiApps.LinkRate.Accesses
import EfiApps.PciIds.SameTable
import EfiApps.PciMisc.BusRestore
import EfiApps.PciMisc.Thunderbolt
import EfiApps.PciMisc.Topology
import EfiApps.PciMisc.SegmentDevices
import EfiApps.PciMisc.VerifyBuses
import EfiApps.PciMisc.HiddenRounds
import EfiApps.PciMisc.HiddenFunctions
import EfiApps.XhciDxe.DriverBinding
import EfiApps.Lib.Fuel
import EfiApps.Lib.Worklist
import EfiApps.PciMisc.MoveEffect
import EfiApps.PciMisc.HiddenTree
import EfiApps.PciMisc.HiddenSearch
import EfiApps.PciMisc.HiddenTermination
import EfiApps.PciMisc.Conversions
import EfiApps.PciMisc.HandleOrder
import EfiApps.PciIds.ItemSearch
import EfiApps.ReloadRom.RomReads
import EfiApps.ReloadRom.ImageCalls
import EfiApps.PciMisc.TreePlaces
import EfiApps.PciMisc.IndentWidth
import EfiApps.PciIds.FilePath
import EfiApps.PciIds.TextBounds
import EfiApps.XhciDxe.RingProtocol
import EfiApps.XhciDxe.TransferResult
import EfiApps.XhciDxe.MemAddresses
import EfiApps.XhciDxe.SlotTeardown
import EfiApps.XhciDxe.Translators
import EfiApps.XhciDxe.SetInterface

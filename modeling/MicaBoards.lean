import MicaBoards.Boot.Records
import MicaBoards.Boot.Environment
import MicaBoards.Boot.RecordsRoundTrip
import MicaBoards.Boot.EnvironmentCorrectness
import MicaBoards.Boot.CrashAtomicity
import MicaBoards.Boot.FileBoot
import MicaBoards.Foundations.Trace
import MicaBoards.Boot.RunSteps
import MicaBoards.Boot.Attempts
import MicaBoards.Foundations.Crc32
import MicaBoards.Boot.ResetLoop
import MicaBoards.Foundations.Descent
import MicaBoards.Foundations.FramedStream
import MicaBoards.Bluetooth.H4
import MicaBoards.Bluetooth.Bridge
import MicaBoards.Bluetooth.ChipToKernel
import MicaBoards.Bluetooth.Receiver
import MicaBoards.Bluetooth.VendorTransport
import MicaBoards.Bluetooth.ControllerToHost
import MicaBoards.Bluetooth.HostToController
import MicaBoards.Rockusb.WriteCache
import MicaBoards.Rockusb.WriteCacheRefinement
import MicaBoards.Foundations.PaddedOrder
import MicaBoards.Release.Version
import MicaBoards.Release.VersionGuard
import MicaBoards.Release.VersionHistory
import MicaBoards.Foundations.Schedule
import MicaBoards.Registry.Oci
import MicaBoards.Registry.OciTags
import MicaBoards.Bluetooth.HostSocket
import MicaBoards.Bluetooth.HostSocket.Frames
import MicaBoards.Bluetooth.HostSocket.Overlap
import MicaBoards.Boot.RecordReads
import MicaBoards.Boot.RecordsCorrectness
import MicaBoards.Boot.EnvironmentLayout
import MicaBoards.Foundations.ThreeWire
import MicaBoards.FrontPanel.Controller
import MicaBoards.FrontPanel.Driver
import MicaBoards.FrontPanel.InStep
import MicaBoards.Release.DebianOrder
import MicaBoards.Foundations.SeparatedOrder
import MicaBoards.Foundations.Text
import MicaBoards.Locks.Accepted
import MicaBoards.Locks.CanonicalOrder
import MicaBoards.Locks.LockedRows
import MicaBoards.Locks.PinGrammar
import MicaBoards.Locks.PinsCorrectness
import MicaBoards.Locks.Verify
import MicaBoards.Locks.VerifyCorrectness
import MicaBoards.Locks.WriterAccepted
import MicaBoards.Bluetooth.Btsnoop
import MicaBoards.Bluetooth.ControllerAddress
import MicaBoards.Foundations.Blocks
import MicaBoards.Foundations.Grid
import MicaBoards.Foundations.Loops
import MicaBoards.Foundations.Tally
import MicaBoards.Foundations.WeightedMean
import MicaBoards.Logo.Png
import MicaBoards.Logo.PngCorrectness
import MicaBoards.Logo.QuantiseCorrectness
import MicaBoards.Logo.Resample
import MicaBoards.Logo.ResampleCorrectness
import MicaBoards.Rockusb.FailureSticks
import MicaBoards.Boards.CheckedTable
import MicaBoards.Boards.ChecksAgree
import MicaBoards.Ethernet.Addresses
import MicaBoards.Foundations.Owners
import MicaBoards.Foundations.Python
import MicaBoards.Foundations.Shell
import MicaBoards.Packages.ArMembers
import MicaBoards.Packages.CopiedFrom
import MicaBoards.Packages.CopiesCovered
import MicaBoards.Packages.Ownership
import MicaBoards.Packages.OwnershipCorrectness
import MicaBoards.Trust.Bundle
import MicaBoards.Trust.Readers
import MicaBoards.Trust.ReadersAgree
import MicaBoards.Bluetooth.Process.Inbound
import MicaBoards.Bluetooth.Process.Shutdown
import MicaBoards.Bluetooth.Process.ExitStatus
import MicaBoards.Foundations.SerialNumbers
import MicaBoards.FrontPanel.Service
import MicaBoards.Wifi.Reorder
import MicaBoards.Wifi.ReorderAccount
import MicaBoards.Wifi.ReorderOrder
import MicaBoards.Wifi.ReorderWatched

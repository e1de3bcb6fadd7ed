import FlashProgrammer.Bench.Rig
import FlashProgrammer.Bench.SfdpImage
import FlashProgrammer.Bench.Transcript
import FlashProgrammer.Proofs.Programmer.Addressing
import FlashProgrammer.Proofs.Programmer.RangeErase
import FlashProgrammer.Proofs.Bench.ChipAnswers
import FlashProgrammer.Proofs.Programmer.Verification
import FlashProgrammer.Proofs.Bench.ControlGate
import FlashProgrammer.Proofs.Bench.LoopGate
import FlashProgrammer.Proofs.Programmer.HaltedPackets
import FlashProgrammer.Proofs.Programmer.Isolation
import FlashProgrammer.Proofs.Programmer.Outstanding
import FlashProgrammer.Proofs.Usb.Configuring
import FlashProgrammer.Proofs.Programmer.RoundTrip
import FlashProgrammer.Proofs.Programmer.ServedInOrder
import FlashProgrammer.Proofs.Protocol.RequestFrames
import FlashProgrammer.Proofs.Usb.BusReset
import FlashProgrammer.Proofs.Usb.EndpointZero
import FlashProgrammer.Proofs.Programmer.AnsweredFrames
import FlashProgrammer.Proofs.Programmer.ShownFailures
import FlashProgrammer.Proofs.Rp2040.ArrivingSetup
import FlashProgrammer.Proofs.Programmer.Cancellation
import FlashProgrammer.Proofs.Programmer.OneOutcome
import FlashProgrammer.Proofs.Usb.DescriptorPackets
import FlashProgrammer.Proofs.Usb.ArmedEndpoints
import FlashProgrammer.Proofs.Usb.TakenAddress
import FlashProgrammer.Proofs.Usb.ListenedEvents
import FlashProgrammer.Proofs.Usb.ForgottenHalts
import FlashProgrammer.Proofs.Programmer.SleepingBus
import FlashProgrammer.Proofs.Programmer.CheckedServing
import FlashProgrammer.Proofs.Programmer.ChipSelects
import FlashProgrammer.Proofs.Rp2040.BufferOwnership
import FlashProgrammer.Proofs.Rp2040.ControlToggle
import FlashProgrammer.Proofs.Rp2040.BulkToggle
import FlashProgrammer.Proofs.Flash.Resolution
import FlashProgrammer.Proofs.Usb.WorkOrder
import FlashProgrammer.Proofs.Usb.Detachment
import FlashProgrammer.Proofs.Usb.Refusals
import FlashProgrammer.Proofs.Sfdp.Walk
import FlashProgrammer.Proofs.Programmer.ErasablePages
import FlashProgrammer.Proofs.Programmer.UnreadableChips
import FlashProgrammer.Proofs.Usb.WrittenPackets
import FlashProgrammer.Proofs.Bench.Reassembly
import FlashProgrammer.Proofs.Usb.DataDirection
import FlashProgrammer.Proofs.Programmer.Turns
import FlashProgrammer.Proofs.Trace.Effort
import FlashProgrammer.Proofs.Usb.BoundedTransfers
import FlashProgrammer.Proofs.Programmer.ServingEffort
import FlashProgrammer.Proofs.Programmer.BoundedWaits
import FlashProgrammer.Proofs.Usb.QueueAsList
import FlashProgrammer.Proofs.Usb.PayloadCopies
import FlashProgrammer.Proofs.Bench.FifoPacking
import FlashProgrammer.Proofs.Programmer.IdleReads

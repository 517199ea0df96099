import DotMatrix.Audio.Ring
import DotMatrix.Bus.Advance
import DotMatrix.Bus.Basic
import DotMatrix.Bus.Layout
import DotMatrix.Bus.Read
import DotMatrix.Bus.Transfer
import DotMatrix.Bus.Write
import DotMatrix.Cartridge.BootRom
import DotMatrix.Cartridge.Clock
import DotMatrix.Cartridge.Controller
import DotMatrix.Cartridge.Header
import DotMatrix.Cartridge.Slot
import DotMatrix.Checksum
import DotMatrix.Console
import DotMatrix.Failure
import DotMatrix.Interrupt
import DotMatrix.Joypad
import DotMatrix.Machine.Basic
import DotMatrix.Machine.Run
import DotMatrix.Machine.Snapshot
import DotMatrix.Memory
import DotMatrix.Processor.Arithmetic
import DotMatrix.Processor.Basic
import DotMatrix.Processor.Core
import DotMatrix.Processor.Execute
import DotMatrix.Processor.Instruction
import DotMatrix.Processor.Layout
import DotMatrix.Processor.Step
import DotMatrix.Processor.Trace
import DotMatrix.Session.Basic
import DotMatrix.Session.Settings
import DotMatrix.Snapshot.Container
import DotMatrix.Snapshot.Layout
import DotMatrix.Snapshot.Thumbnail
import DotMatrix.SoftPatch.Bps
import DotMatrix.SoftPatch.Envelope
import DotMatrix.SoftPatch.Format
import DotMatrix.SoftPatch.Image
import DotMatrix.SoftPatch.Ips
import DotMatrix.SoftPatch.Number
import DotMatrix.SoftPatch.Ups
import DotMatrix.Sound.Advance
import DotMatrix.Sound.Basic
import DotMatrix.Sound.Countdown
import DotMatrix.Sound.Envelope
import DotMatrix.Sound.Filter
import DotMatrix.Sound.Gate
import DotMatrix.Sound.Layout
import DotMatrix.Sound.Mixer
import DotMatrix.Sound.Noise
import DotMatrix.Sound.Registers
import DotMatrix.Sound.Square
import DotMatrix.Sound.Wave
import DotMatrix.Text.Blank
import DotMatrix.Text.Hex
import DotMatrix.Text.Utf8
import DotMatrix.Timer
import DotMatrix.Video.Advance
import DotMatrix.Video.Basic
import DotMatrix.Video.Layout
import DotMatrix.Video.Palette
import DotMatrix.Video.Registers
import DotMatrix.Video.Scanline
import DotMatrix.Video.Sprite
import DotMatrix.Video.Tile
import DotMatrix.Word
import DotMatrix.Proofs.Memory
import DotMatrix.Proofs.Snapshot.Layout
import DotMatrix.Proofs.Word
import DotMatrix.Proofs.Joypad
import DotMatrix.Proofs.Processor
import DotMatrix.Proofs.Snapshot.Container
import DotMatrix.Proofs.Timer
import DotMatrix.Proofs.Cartridge.Clock
import DotMatrix.Proofs.Cartridge.Controller
import DotMatrix.Proofs.Cartridge.Slot
import DotMatrix.Proofs.Video.Range
import DotMatrix.Proofs.Video.Snapshot
import DotMatrix.Proofs.Sound.Channels
import DotMatrix.Proofs.Sound.Range
import DotMatrix.Proofs.Sound.ChannelLayouts
import DotMatrix.Proofs.Sound.Snapshot
import DotMatrix.Proofs.Sound.RoundTrip
import DotMatrix.Proofs.Bus.Transfer
import DotMatrix.Proofs.Bus.Range
import DotMatrix.Proofs.Bus.Effect
import DotMatrix.Proofs.Core
import DotMatrix.Proofs.Machine.Range
import DotMatrix.Proofs.Bus.Snapshot
import DotMatrix.Proofs.Machine.Snapshot
import DotMatrix.Proofs.Machine.Reachable
import DotMatrix.Proofs.Machine.RoundTrip
import DotMatrix.Proofs.Bus.Unsaved
import DotMatrix.Proofs.Machine.Future
import DotMatrix.Proofs.Machine.WellFormed
import DotMatrix.Proofs.Machine.Budget
import DotMatrix.Proofs.Processor.Handler
import DotMatrix.Proofs.Video.Signal
import DotMatrix.Proofs.Video.Order
import DotMatrix.Proofs.Video.Position
import DotMatrix.Proofs.Machine.Marks
import DotMatrix.Proofs.Machine.SnapshotRam
import DotMatrix.Proofs.Session.Battery
import DotMatrix.Proofs.SoftPatch.Commands
import DotMatrix.Proofs.SoftPatch.Body
import DotMatrix.Proofs.SoftPatch.Checked
import DotMatrix.Proofs.SoftPatch.Envelope
import DotMatrix.Proofs.SoftPatch.Builds
import DotMatrix.Proofs.Sound.ChannelWords
import DotMatrix.Proofs.Sound.UnitWords
import DotMatrix.Proofs.Sound.Safety
import DotMatrix.Proofs.SoftPatch.Differences
import DotMatrix.Proofs.SoftPatch.Restores
import DotMatrix.Proofs.Snapshot.Values
import DotMatrix.Proofs.Snapshot.Codec
import DotMatrix.Proofs.Sound.Frames
import DotMatrix.Proofs.Machine.Frames
import DotMatrix.Proofs.Audio.Ring
import DotMatrix.Proofs.Session.Audio
import DotMatrix.Proofs.Video.Painter
import DotMatrix.Proofs.Video.Composite
import DotMatrix.Proofs.Video.Delivery
import DotMatrix.Proofs.Video.Status
import DotMatrix.Proofs.Timer.Rate
import DotMatrix.Proofs.Bus.Delivery
import DotMatrix.Proofs.Cartridge.Seconds
import DotMatrix.Proofs.Sound.Power
import DotMatrix.Proofs.Sound.Sequence
import DotMatrix.Proofs.Sound.Timing
import DotMatrix.Proofs.Video.Blanks
import DotMatrix.Proofs.Bus.Blocks
import DotMatrix.Proofs.Bus.Ways
import DotMatrix.Proofs.Cartridge.Header
import DotMatrix.Proofs.Cartridge.History
import DotMatrix.Proofs.Cartridge.Banks
import DotMatrix.Proofs.Cartridge.Ram
import DotMatrix.Proofs.Cartridge.Battery
import DotMatrix.Proofs.SoftPatch.Overdump
import DotMatrix.Proofs.Machine.Undefined
import DotMatrix.Proofs.Processor.Decimal
import DotMatrix.Proofs.SoftPatch.Records
import DotMatrix.Proofs.Audio.Queue
import DotMatrix.Proofs.Bus.WorkRam
import DotMatrix.Proofs.Cartridge.Rumble
import DotMatrix.Proofs.Machine.Turns
import DotMatrix.Proofs.Session.Idle
import DotMatrix.Proofs.Video.PaintWords
import DotMatrix.Proofs.Video.UnitWords
import DotMatrix.Proofs.Video.Safety
import DotMatrix.Proofs.SoftPatch.Forms

import BoardSupport.Csr.Command
import BoardSupport.Csr.File
import BoardSupport.Csr.Interrupts
import BoardSupport.Csr.Register
import BoardSupport.Csr.Unit
import BoardSupport.Device.Bench
import BoardSupport.Device.Bus
import BoardSupport.Device.Machine
import BoardSupport.Device.Model
import BoardSupport.Device.Spi
import BoardSupport.Device.Storage
import BoardSupport.Device.Timer
import BoardSupport.Device.Trng
import BoardSupport.Device.Uart
import BoardSupport.Fault
import BoardSupport.Fifo.Register
import BoardSupport.Fifo.Status
import BoardSupport.Firmware.Board
import BoardSupport.Firmware.Console
import BoardSupport.Firmware.Image
import BoardSupport.Firmware.Session
import BoardSupport.Firmware.Settings
import BoardSupport.Firmware.TrapEntry
import BoardSupport.Gpio
import BoardSupport.Log
import BoardSupport.MemoryMap
import BoardSupport.Program.Access
import BoardSupport.Program.Basic
import BoardSupport.Program.Record
import BoardSupport.Program.Run
import BoardSupport.Proofs.Control.Aliases
import BoardSupport.Proofs.Control.Interleaving
import BoardSupport.Proofs.Control.Updates
import BoardSupport.Proofs.Csr.Helpers
import BoardSupport.Proofs.Csr.Interleaved
import BoardSupport.Proofs.Csr.Interrupts
import BoardSupport.Proofs.Csr.Nesting
import BoardSupport.Proofs.Csr.Stages
import BoardSupport.Proofs.Device.Access
import BoardSupport.Proofs.Device.Part
import BoardSupport.Proofs.Fifo.Handshake
import BoardSupport.Proofs.Firmware.Boot
import BoardSupport.Proofs.Firmware.Console
import BoardSupport.Proofs.Firmware.Echo
import BoardSupport.Proofs.Firmware.LineInput
import BoardSupport.Proofs.Firmware.MaskedCalls
import BoardSupport.Proofs.Firmware.RunningBoard
import BoardSupport.Proofs.Firmware.Schedule
import BoardSupport.Proofs.Firmware.Traffic
import BoardSupport.Proofs.Firmware.TrapOutcome
import BoardSupport.Proofs.Firmware.TrapPath
import BoardSupport.Proofs.Program.Exchanges
import BoardSupport.Proofs.Program.Interruption
import BoardSupport.Proofs.Program.Returns
import BoardSupport.Proofs.Program.Steps
import BoardSupport.Proofs.Program.Stops
import BoardSupport.Proofs.Program.Turns
import BoardSupport.Proofs.Register.Bits
import BoardSupport.Proofs.Register.Exactness
import BoardSupport.Proofs.Register.Values
import BoardSupport.Proofs.Spi.Blocks
import BoardSupport.Proofs.Spi.Calls
import BoardSupport.Proofs.Spi.Frames
import BoardSupport.Proofs.Spi.FullDuplex
import BoardSupport.Proofs.Spi.Model
import BoardSupport.Proofs.Spi.Protocol
import BoardSupport.Proofs.Spi.Refusal
import BoardSupport.Proofs.Spi.Sending
import BoardSupport.Proofs.Spi.Settings
import BoardSupport.Proofs.Spi.Snapshot
import BoardSupport.Proofs.Spi.Transaction
import BoardSupport.Proofs.Spi.Transfers
import BoardSupport.Proofs.Timer.Bursts
import BoardSupport.Proofs.Timer.Compare
import BoardSupport.Proofs.Timer.Loading
import BoardSupport.Proofs.Timer.Model
import BoardSupport.Proofs.Timer.Reading
import BoardSupport.Proofs.Timer.Rearming
import BoardSupport.Proofs.Timer.Uptime
import BoardSupport.Proofs.Trap.Decoding
import BoardSupport.Proofs.Trap.Defaults
import BoardSupport.Proofs.Trap.Dispatch
import BoardSupport.Proofs.Trap.Routing
import BoardSupport.Proofs.Trng.Harvest
import BoardSupport.Proofs.Trng.History
import BoardSupport.Proofs.Trng.Model
import BoardSupport.Proofs.Uart.Arrivals
import BoardSupport.Proofs.Uart.Calls
import BoardSupport.Proofs.Uart.Codec
import BoardSupport.Proofs.Uart.Events
import BoardSupport.Proofs.Uart.Handshake
import BoardSupport.Proofs.Uart.Lines
import BoardSupport.Proofs.Uart.Model
import BoardSupport.Proofs.Uart.Queries
import BoardSupport.Proofs.Uart.Reports
import BoardSupport.Proofs.Uart.RoundTrip
import BoardSupport.Proofs.Uart.Settings
import BoardSupport.Proofs.Uart.Stream
import BoardSupport.Proofs.Uart.Transfers
import BoardSupport.Register.Field
import BoardSupport.Register.Halves
import BoardSupport.Spi.Command
import BoardSupport.Spi.Config
import BoardSupport.Spi.Driver
import BoardSupport.Text.Hexadecimal
import BoardSupport.Text.Utf8
import BoardSupport.Timer
import BoardSupport.Trap.Cause
import BoardSupport.Trap.Dispatcher
import BoardSupport.Trap.Handler
import BoardSupport.Trap.Policy
import BoardSupport.Trap.Router
import BoardSupport.Trng
import BoardSupport.Uart.Command
import BoardSupport.Uart.Config
import BoardSupport.Uart.Driver
import BoardSupport.Uptime

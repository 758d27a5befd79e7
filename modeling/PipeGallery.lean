import PipeGallery.Lib.Runs
import PipeGallery.Lib.Trace
import PipeGallery.Lib.Occurs
import PipeGallery.Lib.Float
import PipeGallery.Lib.Json
import PipeGallery.Lib.Crc
import PipeGallery.Methane.Resync
import PipeGallery.Adc.Isolation
import PipeGallery.Adc.Oxygen
import PipeGallery.Report.WellFormed
import PipeGallery.Report.Truth
import PipeGallery.Stress.Poll
import PipeGallery.Modbus.Poll
import PipeGallery.Modbus.Address
import PipeGallery.Sht30.Read
import PipeGallery.Esp.Disconnect
import PipeGallery.Esp.Replies
import PipeGallery.Esp.Faithful
import PipeGallery.Esp.Handshake
import PipeGallery.Esp.Publish
import PipeGallery.Eth.Client
import PipeGallery.Phy.Reset
import PipeGallery.Phy.Scan
import PipeGallery.Phy.Link
import PipeGallery.Lib.Ring
import PipeGallery.Lib.TwoWire
import PipeGallery.Serial.Fifo
import PipeGallery.Serial.Reader
import PipeGallery.Methane.Handover
import PipeGallery.I2c.BitOps
import PipeGallery.I2c.Bytes
import PipeGallery.I2c.Refine
import PipeGallery.Sht30.Wire
import PipeGallery.Lib.Lines
import PipeGallery.Lib.Progress
import PipeGallery.Lib.Template
import PipeGallery.Lib.Wrap
import PipeGallery.Report.Decode
import PipeGallery.Report.Lora
import PipeGallery.Eth.Stream
import PipeGallery.Esp.Progress
import PipeGallery.Kernel.Timer
import PipeGallery.Kernel.Alarm
import PipeGallery.Lib.Datum
import PipeGallery.Report.Precise
import PipeGallery.Lib.Cells
import PipeGallery.Shell.Msh
import PipeGallery.Shell.Editor
import PipeGallery.Shell.Console

import JsonScada.Library.ChangeLog
import JsonScada.Library.Double
import JsonScada.Library.Scanner
import JsonScada.Modbus.ByteOrder
import JsonScada.Modbus.Rtu.Theorems
import JsonScada.Library.Positional
import JsonScada.Library.Binary64
import JsonScada.Library.Decimal
import JsonScada.Modbus.Codec
import JsonScada.Modbus.Codec.Strings
import JsonScada.Library.Lease
import JsonScada.OpcUa.Client.Browse.Complete
import JsonScada.OpcUa.Client.Subscribe
import JsonScada.OpcUa.Client.Discovery.Linked
import JsonScada.OpcUa.Client.Discovery.Monitored
import JsonScada.Redundancy
import JsonScada.Redundancy.Takeover
import JsonScada.Redundancy.Arbitration
import JsonScada.Processor.Bson
import JsonScada.Processor.HandleChange
import JsonScada.Library.LastWrite
import JsonScada.Modbus.Client
import JsonScada.Modbus.Client.Invalid
import JsonScada.Modbus.Client.Scaling
import JsonScada.Processor.Node
import JsonScada.Processor.Node.Agreement
import JsonScada.Processor.Node.Theorems
import JsonScada.Processor.Reprocess
import JsonScada.Processor.Writer
import JsonScada.Library.Run
import JsonScada.Modbus.Address
import JsonScada.Modbus.PointMap
import JsonScada.Modbus.PointMap.Cells
import JsonScada.Modbus.PointMap.History
import JsonScada.Modbus.PointMap.Layout
import JsonScada.Modbus.PointMap.Theorems
import JsonScada.Modbus.Watcher
import JsonScada.Modbus.Watcher.Theorems
import JsonScada.Dnp3.Client
import JsonScada.Dnp3.Commands
import JsonScada.Dnp3.Server.Distribution
import JsonScada.Dnp3.Engine.LinkLoss
import JsonScada.Dnp3.Engine.Standby
import JsonScada.Dnp3.SourceTime
import JsonScada.Dnp3.ValueQueue
import JsonScada.Dnp3.Writer.Outage
import JsonScada.Iec61850.Client.Buffered.Invariant
import JsonScada.Iec61850.Client.Writer.Complete
import JsonScada.Iec61850.Server.Convergence
import JsonScada.Iec60870.Client
import JsonScada.Iec60870.Client.Selects
import JsonScada.Iec60870.Server
import JsonScada.Iec60870.Server.Destinations
import JsonScada.Iec60870.Server.Reports
import JsonScada.Iec60870.Server.Selection
import JsonScada.Modbus.Client.Commands
import JsonScada.Modbus.Client.Poll
import JsonScada.Modbus.Client.Published
import JsonScada.WebServer.Write.Groups
import JsonScada.WebServer.Read.Groups
import JsonScada.WebServer.RangeCheck.Theorems
import JsonScada.Mqtt.SparkplugClient
import JsonScada.Processor.Pool
import JsonScada.Iccp.Server.Commands
import JsonScada.Iccp.Client.Coverage
import JsonScada.Iccp.Client.Writer
import JsonScada.Iccp.Client.Standby
import JsonScada.WebServer.UserActions
import JsonScada.Replication.Delivery
import JsonScada.Mqtt.Updates.Invariant
import JsonScada.Mqtt.Devices
import JsonScada.Mqtt.Devices.Deaths
import JsonScada.Mqtt.Devices.Invalid
import JsonScada.Processor.Limits
import JsonScada.Processor.Limits.Hysteresis
import JsonScada.Library.Sql
import JsonScada.Processor.Json
import JsonScada.Processor.Tuples
import JsonScada.Processor.Tuples.Reading
import JsonScada.Processor.Finite
import JsonScada.Processor.Mirror
import JsonScada.Library.Stall
import JsonScada.Redundancy.Copies
import JsonScada.Library.Rounding
import JsonScada.Modbus.Codec.Restored
import JsonScada.Library.Coalesce
import JsonScada.Modbus.Client.Planner
import JsonScada.Modbus.Client.BitCommands
import JsonScada.Library.Regex
import JsonScada.Library.Outcome
import JsonScada.Mqtt.Values
import JsonScada.Mqtt.Topics
import JsonScada.Mqtt.Topics.Theorems
import JsonScada.Library.Assoc
import JsonScada.Mqtt.Publisher
import JsonScada.Mqtt.Publisher.Invariant
import JsonScada.JsTags
import JsonScada.Iec60870.Client.AutoTag
import JsonScada.Library.Selection
import JsonScada.Iec60870.Server.Interrogation
import JsonScada.Modbus.PointMap.Frame
import JsonScada.Modbus.WriteHandler
import JsonScada.Modbus.WriteHandler.Theorems
import JsonScada.Modbus.Codec.Registers
import JsonScada.Modbus.Codec.Texts
import JsonScada.Modbus.Client.Registers
import JsonScada.Modbus.Client.Rewrite
import JsonScada.Iccp.Server.Watch.Invariant
import JsonScada.Library.Backlog
import JsonScada.Library.Allotment
import JsonScada.JsMongo
import JsonScada.Iec60870.Server.Queue
import JsonScada.Iec60870.Client.Values
import JsonScada.Iec60870.Client.Bitstrings
import JsonScada.Iec60870.Clamping
import JsonScada.Iec60870.Server.AutoTag
import JsonScada.Iec60870.Server.AutoTag.Saturation
import JsonScada.Iec60870.Client.Writer
import JsonScada.Iec60870.Client.Writer.Recovery
import JsonScada.Library.FloatFormat
import JsonScada.Dnp3.Fields
import JsonScada.Dnp3.Control
import JsonScada.Dnp3.Outstation
import JsonScada.Dnp3.Commands.Execute
import JsonScada.Dnp3.Outstation.Commands
import JsonScada.Dnp3.Channel
import JsonScada.Dnp3.Bus
import JsonScada.Dnp3.AutoCreate.Once
import JsonScada.Iec61850.Server.ModelBuilder.Theorems
import JsonScada.Iec61850.Client.Commands
import JsonScada.Iec61850.Client.ValueJson
import JsonScada.OpcUa.Client.Commands.Exact
import JsonScada.OpcUa.Client.Commands.Methods
import JsonScada.WebServer.Write.Answer
import JsonScada.WebServer.SignIn
import JsonScada.WebServer.History.Shares
import JsonScada.WebServer.Write.Properties
import JsonScada.Calculations.Theorems
import JsonScada.Iccp.Server.Conversion
import JsonScada.Iccp.Client.Setpoints
import JsonScada.Mqtt.Commands

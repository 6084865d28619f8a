import Recbcsrv.Lib.LinkedList
import Recbcsrv.Lib.Exec
import Recbcsrv.Datafifo.Item
import Recbcsrv.Datafifo.Fifo
import Recbcsrv.Datafifo.Thread
import Recbcsrv.Datafifo.View
import Recbcsrv.Datafifo.Inv
import Recbcsrv.Datafifo.InvStep
import Recbcsrv.Datafifo.Refine
import Recbcsrv.Datafifo.Delivery
import Recbcsrv.Datafifo.Assembly
import Recbcsrv.Datafifo.Accounts
import Recbcsrv.Datafifo.Calls
import Recbcsrv.Lib.Bytes
import Recbcsrv.Lib.Interleave
import Recbcsrv.Lib.History
import Recbcsrv.Message.Hex
import Recbcsrv.Message.Walk
import Recbcsrv.Message.Encode
import Recbcsrv.Message.GetMsg
import Recbcsrv.Message.Copies
import Recbcsrv.Device.SendLoop
import Recbcsrv.Device.Connection
import Recbcsrv.Device.SocketErrors
import Recbcsrv.Switch.TruthTable
import Recbcsrv.Switch.Policy
import Recbcsrv.Switch.Tracking
import Recbcsrv.Switch.Conditions
import Recbcsrv.Switch.Picture
import Recbcsrv.Lib.WaitFor
import Recbcsrv.Graph.Net
import Recbcsrv.Graph.Wiring
import Recbcsrv.Graph.Deadlock
import Recbcsrv.Switch.PolicyFile
import Recbcsrv.Message.Instructor
import Recbcsrv.Message.Detect
import Recbcsrv.Message.Indices
import Recbcsrv.Message.Media
import Recbcsrv.Message.Packets
import Recbcsrv.Recorder.Cancel
import Recbcsrv.Recorder.Marks
import Recbcsrv.Recorder.Contents
import Recbcsrv.Recorder.Clips
import Recbcsrv.Graph.Recording
import Recbcsrv.Recorder.LiveStream
import Recbcsrv.Datafifo.Failures
import Recbcsrv.Datafifo.Pieces
import Recbcsrv.Sntp.Packet
import Recbcsrv.Sntp.Client
import Recbcsrv.Datafifo.Consumers
import Recbcsrv.Switch.Additions
import Recbcsrv.Switch.Debounce
import Recbcsrv.Switch.Camera
import Recbcsrv.Switch.Motion
import Recbcsrv.Switch.Regions
import Recbcsrv.Switch.Pan
import Recbcsrv.Switch.Ptz
import Recbcsrv.Switch.Framing
import Recbcsrv.Switch.Inset
import Recbcsrv.Graph.Snapshot
import Recbcsrv.Switch.Manual
import Recbcsrv.Switch.CameraInit
import Recbcsrv.Switch.PresetTable
import Recbcsrv.Switch.Dwell
import Recbcsrv.Switch.Presence
import Recbcsrv.Recorder.Timestamps
import Recbcsrv.Lib.Stores
import Recbcsrv.Image.Census
import Recbcsrv.Image.Rectangles
import Recbcsrv.Image.Scaling
import Recbcsrv.Image.Yuv
import Recbcsrv.Message.Standing
import Recbcsrv.Message.Emulator
import Recbcsrv.Lib.Words
import Recbcsrv.Sntp.FixedPoint
import Recbcsrv.Sntp.Macros
import Recbcsrv.Sntp.NtpTime
import Recbcsrv.Config.Load
import Recbcsrv.Config.Equalizer

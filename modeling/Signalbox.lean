import Signalbox.Proofs.Table
import Signalbox.Proofs.Run.Pid
import Signalbox.Web.Server
import Signalbox.Control.Start
import Signalbox.Control.Document
import Signalbox.Script.Document
import Signalbox.Hardware.Document
import Signalbox.Control.Session
import Signalbox.Schedule
import Signalbox.Run.Basic
import Signalbox.Run.Document
import Signalbox.Run.Error
import Signalbox.Script.Catalog
import Signalbox.Hardware.Adapter
import Signalbox.Loco.Roster
import Signalbox.Layout.Interlocking
import Signalbox.Event.Channel
import Signalbox.Event.Publish
import Signalbox.Hardware.Station
import Signalbox.Hardware.Virtual
import Signalbox.Config.Change
import Signalbox.Hardware.Packet
import Signalbox.Store.Basic
import Signalbox.Loco.Basic
import Signalbox.Script.Compile
import Signalbox.Layout.Document
import Signalbox.Run.Pid
import Signalbox.Text.Utf8
import Signalbox.Json.Writer
import Signalbox.Proofs.Layout.Path
import Signalbox.Proofs.Layout.Ending
import Signalbox.Proofs.Layout.Shortest
import Signalbox.Proofs.Layout.Lengths
import Signalbox.Proofs.Layout.Interlocking
import Signalbox.Proofs.Layout.Variation
import Signalbox.Proofs.Layout.Passage
import Signalbox.Proofs.Layout.Meeting
import Signalbox.Proofs.Layout.Alignment
import Signalbox.Proofs.Script.RoundTrip
import Signalbox.Proofs.Script.Grammar
import Signalbox.Proofs.Control.Names
import Signalbox.Proofs.Control.Calls
import Signalbox.Proofs.Control.Phases
import Signalbox.Proofs.Control.Traffic
import Signalbox.Proofs.Control.Agreement
import Signalbox.Proofs.Store.Track
import Signalbox.Proofs.Control.Saving
import Signalbox.Proofs.Control.Reload
import Signalbox.Proofs.Control.Catalog
import Signalbox.Proofs.Control.Binding
import Signalbox.Proofs.Control.Motion
import Signalbox.Proofs.Control.Ride
import Signalbox.Proofs.Control.Riding
import Signalbox.Proofs.Control.Resumption
import Signalbox.Proofs.Control.Spheres
import Signalbox.Proofs.Control.Switching
import Signalbox.Proofs.Control.Order
import Signalbox.Proofs.Control.Refusals
import Signalbox.Proofs.Store.Failures
import Signalbox.Proofs.Control.Origins
import Signalbox.Proofs.Control.Repeats
import Signalbox.Proofs.Control.Requests
import Signalbox.Proofs.Layout.Deltas
import Signalbox.Proofs.Control.Mirror
import Signalbox.Proofs.Script.Sequel
import Signalbox.Proofs.Script.Writing
import Signalbox.Proofs.Control.Registry
import Signalbox.Proofs.Control.Handlers
import Signalbox.Proofs.Control.Followers
import Signalbox.Proofs.Control.Announcements
import Signalbox.Proofs.Json.Bytes
import Signalbox.Proofs.Json.Numerals
import Signalbox.Proofs.Json.Reading
import Signalbox.Proofs.Store.Documents
import Signalbox.Proofs.Store.Reopening
import Signalbox.Proofs.Hardware.Packets
import Signalbox.Proofs.Layout.Frames
import Signalbox.Proofs.Control.Alone
import Signalbox.Proofs.Control.Logs
import Signalbox.Proofs.Control.Courses
import Signalbox.Proofs.Control.Waiting
import Signalbox.Proofs.Control.Delays
import Signalbox.Proofs.Hardware.Wire
import Signalbox.Proofs.Hardware.Greeting
import Signalbox.Proofs.Allocation
import Signalbox.Proofs.Control.Loading
import Signalbox.Proofs.Script.Comments
import Signalbox.Proofs.Script.Beginnings
import Signalbox.Proofs.Web.RunRequests
import Signalbox.Proofs.Layout.Adjacency
import Signalbox.Proofs.Control.Renewal
import Signalbox.Proofs.Config.Topics
import Signalbox.Proofs.Config.Choice
import Signalbox.Proofs.Control.Functions

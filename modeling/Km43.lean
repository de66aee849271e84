import Km43.Ble.Twin
import Km43.Framing.Forms
import Km43.Framing.Resync
import Km43.Log.Mark
import Km43.Random.Drbg
import Km43.Sealed.Nonces
import Km43.Sealed.Window
import Km43.Devices.Ids
import Km43.Devices.Read
import Km43.Devices.Sizes
import Km43.Cbor.ReadBack
import Km43.Log.CatchUp
import Km43.Sealed.Deliver
import Km43.Topology.Order
import Km43.Inventory.Encode
import Km43.Cbor.Splice
import Km43.Pairing.Enrolments
import Km43.Log.Live
import Km43.Link.Envelope
import Km43.Invite.Binding
import Km43.Vouch.Verify
import Km43.Link.CacheSync
import Km43.Commands.Bodies
import Km43.Config.Structure
import Km43.Wifi.Budget
import Km43.Wifi.StatusTrip
import Km43.Wifi.Relay
import Km43.Devices.Site
import Km43.Devices.Answer
import Km43.Membership.Trip
import Km43.Membership.ClientsTrip
import Km43.Changes.Sweep
import Km43.Concerns.Page
import Km43.Inventory.Cursor
import Km43.Inventory.Walk
import Km43.Wifi.ScanBodiesTrip
import Km43.Topology.Twice
import Km43.Ble.Assembly
import Km43.Framing.Silence
import Km43.Cbor.Refused
import Km43.Handshake.DiscoveryTrip
import Km43.Link.NetChange
import Km43.Noise.Honest
import Km43.Readings.Counter
import Km43.Concerns.Changed
import Km43.Log.Boot
import Km43.Identity.Stored
import Km43.Inventory.Labels
import Km43.Inventory.RowLength
import Km43.Link.FirmwareVersion
import Km43.Readings.Walk
import Km43.Framing.Burst
import Km43.Log.PageRoom
import Km43.Log.ControllerRecord
import Km43.Mac.Purposes
import Km43.Cbor.Plan
import Km43.Ts.Predict
import Km43.Ts.Agree
import Km43.Pairing.Believed
import Km43.Concerns.Walk
import Km43.Sealed.Signed
import Km43.Refusals
import Km43.Requests

import Netd.Math.SortedMap
import Netd.Math.KeyedTable
import Netd.Math.XorLinear
import Netd.Math.Rose
import Netd.Math.Letters
import Netd.Math.Fields
import Netd.Math.Absorbing
import Netd.Math.OnesComplement
import Netd.Math.Pattern
import Netd.Math.Sorting
import Netd.Machine.Transducer
import Netd.Machine.Deadline
import Netd.Machine.Fallible
import Netd.Machine.Stateful
import Netd.Machine.Framing
import Netd.Machine.Metered
import Netd.Machine.Mirror
import Netd.Machine.PacketFilter
import Netd.Machine.Records
import Netd.Machine.Retry
import Netd.Machine.Sifting
import Netd.Model.Core.Data
import Netd.Model.Core.Text
import Netd.Model.Core.Parse
import Netd.Model.Core.Display
import Netd.Model.Kernel
import Netd.Model.Reconcile
import Netd.Model.Netlink
import Netd.Model.Replies
import Netd.Model.Rtnl
import Netd.Model.PacketSocket
import Netd.Model.Dhcp4.Packet
import Netd.Model.Dhcp4.Client
import Netd.Model.Dhcp4.Codec
import Netd.Model.Ndp.Packet
import Netd.Model.Ndp.Engine
import Netd.Model.Dhcp6
import Netd.Model.Profile
import Netd.Model.Policy.Action
import Netd.Model.Policy.Forest
import Netd.Model.Policy
import Netd.Model.Interface
import Netd.Model.EventLoop
import Netd.Model.Exchange
import Netd.Model.Reload
import Netd.Model.Registry
import Netd.Model.Networks
import Netd.Model.Inventory
import Netd.Model.Hostname
import Netd.Model.Convergence
import Netd.Model.Messagepack
import Netd.Model.Control
import Netd.Model.Channel
import Netd.Model.Publish
import Netd.Model.Abi
import Netd.Model.Abi.Trees
import Netd.Model.Abi.Views
import Netd.Model.Abi.Preview
import Netd.Proofs.Reconcile.Execution
import Netd.Proofs.Reconcile.Convergence
import Netd.Proofs.Reconcile.Ownership
import Netd.Proofs.Reconcile.Interfaces
import Netd.Proofs.Reconcile.Broadcast
import Netd.Proofs.Netlink.Replies
import Netd.Proofs.Netlink.Current
import Netd.Proofs.Netlink.Requests
import Netd.Proofs.PacketSocket.Filter
import Netd.Proofs.PacketSocket.Datagrams
import Netd.Proofs.Dhcp4.Lease
import Netd.Proofs.Dhcp4.Moves
import Netd.Proofs.Dhcp4.Noise
import Netd.Proofs.Dhcp4.LeaseTrace
import Netd.Proofs.Dhcp4.Ticks
import Netd.Proofs.Dhcp4.Codec
import Netd.Proofs.Dhcp4.Shape
import Netd.Proofs.Dhcp4.Routes
import Netd.Proofs.Dhcp4.Search
import Netd.Proofs.Dhcp4.Renewals
import Netd.Proofs.Dhcp4.Schedule
import Netd.Proofs.Dhcp4.Unanswered
import Netd.Proofs.Ndp.Expiry
import Netd.Proofs.Ndp.Deadlines
import Netd.Proofs.Ndp.Punctual
import Netd.Proofs.Ndp.Soliciting
import Netd.Proofs.Ndp.Adverts
import Netd.Proofs.Ndp.TwoHours
import Netd.Proofs.Ndp.Random
import Netd.Proofs.Ndp.Addresses
import Netd.Proofs.Ndp.Draws
import Netd.Proofs.Ndp.Uniqueness
import Netd.Proofs.Ndp.Temporaries
import Netd.Proofs.Ndp.Repeats
import Netd.Proofs.Ndp.Prefixes
import Netd.Proofs.Ndp.Names
import Netd.Proofs.Ndp.Options
import Netd.Proofs.Ndp.Ceilings
import Netd.Proofs.Dhcp6.Exchanges
import Netd.Proofs.Dhcp6.Region
import Netd.Proofs.Profile.Inheritance
import Netd.Proofs.Profile.Locality
import Netd.Proofs.Policy.Targets
import Netd.Proofs.Policy.Joins
import Netd.Proofs.Policy.Generation
import Netd.Proofs.Policy.Speakers
import Netd.Proofs.Policy.Order
import Netd.Proofs.Interface.Offers
import Netd.Proofs.Interface.Families
import Netd.Proofs.Interface.Destinations
import Netd.Proofs.Interface.Networks
import Netd.Proofs.EventLoop.Passes
import Netd.Proofs.EventLoop.Standing
import Netd.Proofs.EventLoop.Reconciled
import Netd.Proofs.EventLoop.Restarts
import Netd.Proofs.EventLoop.Lifecycle
import Netd.Proofs.EventLoop.Engines
import Netd.Proofs.EventLoop.Fallback
import Netd.Proofs.EventLoop.LinkLocals
import Netd.Proofs.EventLoop.Consistency
import Netd.Proofs.Reload.Generations
import Netd.Proofs.Reload.Updates
import Netd.Proofs.Registry.Reads
import Netd.Proofs.Registry.Reloads
import Netd.Proofs.Inventory.Ownership
import Netd.Proofs.Wire.Documents
import Netd.Proofs.Wire.Formats
import Netd.Proofs.Wire.Alterations
import Netd.Proofs.Wire.RoundTrip
import Netd.Proofs.Wire.Sizes
import Netd.Proofs.Control.Chunks
import Netd.Proofs.Control.Slots
import Netd.Proofs.Channel.Exact
import Netd.Proofs.Publish.Behind
import Netd.Proofs.Publish.Readable
import Netd.Proofs.Abi.Trees
import Netd.Proofs.Abi.Views
import Netd.Proofs.Abi.Preview
import Netd.Proofs.Text.Utf8
import Netd.Proofs.Text.Addresses
import Netd.Proofs.Text.Hostname
import Netd.Proofs.Exchange.Sockets
import Netd.Proofs.Exchange.Connections
import Netd.Proofs.Exchange.Soundness
import Netd.Proofs.Exchange.Granted
import Netd.Proofs.Convergence.Stations
import Netd.Proofs.Convergence.Judgments
import Netd.Proofs.Convergence.Settling
import Netd.Proofs.Exchange.Granted

import Nfqttl.Lib.Prog
import Nfqttl.Lib.Conc
import Nfqttl.Lib.OrdMap
import Nfqttl.Lib.Bytes
import Nfqttl.Links
import Nfqttl.Iptables
import Nfqttl.Firewall
import Nfqttl.FirewallRun
import Nfqttl.Install
import Nfqttl.Swap
import Nfqttl.Classify
import Nfqttl.Cleanup
import Nfqttl.Uninstall
import Nfqttl.Probe
import Nfqttl.Startup
import Nfqttl.Lib.Netlink
import Nfqttl.Packet
import Nfqttl.Nfqueue
import Nfqttl.Verdict
import Nfqttl.NfqueueBuild
import Nfqttl.Frames
import Nfqttl.Serve
import Nfqttl.Configure
import Nfqttl.Qos
import Nfqttl.QosOwned
import Nfqttl.QosMachine
import Nfqttl.QosForeign
import Nfqttl.QosConverge
import Nfqttl.Config
import Nfqttl.Daemon
import Nfqttl.Stall
import Nfqttl.DaemonRun
import Nfqttl.Recovery
import Nfqttl.Hooks
import Nfqttl.DaemonMachine
import Nfqttl.Retry
import Nfqttl.Lifetime
import Nfqttl.Children
import Nfqttl.Signature
import Nfqttl.Status
import Nfqttl.StatusLoop
import Nfqttl.StatusLife
import Nfqttl.StateFiles
import Nfqttl.QosSync
import Nfqttl.Checksum
import Nfqttl.Hidden
import Nfqttl.Lite
import Nfqttl.LiteRefine
import Nfqttl.QosTlv
import Nfqttl.QosMessage
import Nfqttl.ConfigFile
import Nfqttl.ConfigLoad
import Nfqttl.ConfigBounds
import Nfqttl.Lib.Text
import Nfqttl.QosJournal
import Nfqttl.Ctl
import Nfqttl.CtlRun
import Nfqttl.CtlEdit
import Nfqttl.CtlAtomic
import Nfqttl.Arguments
import Nfqttl.Processes
import Nfqttl.Exclusion
import Nfqttl.Customize
import Nfqttl.CtlLoad
import Nfqttl.Panel
import Nfqttl.Offload
import Nfqttl.OffloadCrash
import Nfqttl.OffloadChoice
import Nfqttl.Net
import Nfqttl.Verify
import Nfqttl.VerifyRun
import Nfqttl.VerifyWindow
import Nfqttl.VerifyRules
import Nfqttl.VerifyInstall
import Nfqttl.VerifyBeside
import Nfqttl.QosDump
import Nfqttl.VerifyHits
import Nfqttl.VerifyListing
import Nfqttl.VerifyWire

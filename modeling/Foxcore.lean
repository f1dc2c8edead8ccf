import Foxcore.Proofs.Backlog
import Foxcore.Proofs.CacheAging
import Foxcore.Proofs.Classifier
import Foxcore.Proofs.Datagram
import Foxcore.Proofs.Deadline
import Foxcore.Proofs.DnsHints
import Foxcore.Proofs.Explain
import Foxcore.Proofs.FakePool
import Foxcore.Proofs.Filtering
import Foxcore.Proofs.HalfClose
import Foxcore.Proofs.LanProxy
import Foxcore.Proofs.NetstackBounds
import Foxcore.Proofs.NetstackCommands
import Foxcore.Proofs.NetstackIdentity
import Foxcore.Proofs.NetworkSwitch
import Foxcore.Proofs.Outline
import Foxcore.Proofs.Pacing
import Foxcore.Proofs.RuleSetAudit
import Foxcore.Proofs.RuleSetCategories
import Foxcore.Proofs.Selector
import Foxcore.Proofs.ServerFirst
import Foxcore.Proofs.SharedUid
import Foxcore.Proofs.Ss2022
import Foxcore.Proofs.TrafficMap
import Foxcore.Proofs.Translation
import Foxcore.Proofs.VmessStream
import Foxcore.Proofs.WireBlocking

import Watz.Aot.Bounds
import Watz.Aot.MemoryInstance
import Watz.Aot.Protection
import Watz.Aot.Relocation
import Watz.Aot.Translation
import Watz.Attester.Output
import Watz.Attester.Pinning
import Watz.Attester.Resources
import Watz.Attester.Runtime
import Watz.Attester.Sandbox
import Watz.Attester.Session
import Watz.Attester.Teardown
import Watz.Ems.Growth
import Watz.OpTee.Lengths
import Watz.OpTee.Physical
import Watz.OpTee.Remap
import Watz.Protocol.Agreement
import Watz.Protocol.Authentication
import Watz.Protocol.Bounds
import Watz.Protocol.Delivery
import Watz.Protocol.HandleDiscipline
import Watz.Pta.Memrefs
import Watz.Pta.Service
import Watz.Verifier.Verdict
import Watz.Wamr.Clock
import Watz.Wamr.Symbols

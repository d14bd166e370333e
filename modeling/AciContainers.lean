import AciContainers.ApicDelta
import AciContainers.HppRef
import AciContainers.HostSnatIndex
import AciContainers.PodSelectorIndexLive
import AciContainers.NodeServiceEps
import AciContainers.GrpcStreams
import AciContainers.OpflexDevices
import AciContainers.EndpointSlices
import AciContainers.NodeFabNetAttExact
import AciContainers.Kafka
import AciContainers.NodePodNetHeadroom
import AciContainers.SnatClearing
import AciContainers.ApicIndexLock
import AciContainers.DelayedEpSlices
import AciContainers.GbpVerify
import AciContainers.OpflexExpiry
import AciContainers.PolicyPointers
import AciContainers.HostprotAllows
import AciContainers.ServicePortIndex
import AciContainers.SnatCidrs
import AciContainers.SnatCoverage
import AciContainers.IntentDbConverges
import AciContainers.ServiceIpsSafety
import AciContainers.HostEndpoints
import AciContainers.HostServices
import AciContainers.PacketEvents

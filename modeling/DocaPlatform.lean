import DocaPlatform.IpamDeployment
import DocaPlatform.StaticKeyRotation
import DocaPlatform.NodeEffectInvariant
import DocaPlatform.RollingUpdate
import DocaPlatform.StaticKeyStore
import DocaPlatform.ClusterCapacity
import DocaPlatform.CriticalPods
import DocaPlatform.InPlaceBookkeeping
import DocaPlatform.InterfaceRetention
import DocaPlatform.IpamAgreement
import DocaPlatform.InPlaceBudget
import DocaPlatform.InPlaceJumps
import DocaPlatform.AgentRounds
import DocaPlatform.ExternalReboot
import DocaPlatform.MaintenanceLimit
import DocaPlatform.RequestorFrame
import DocaPlatform.InterfaceShards
import DocaPlatform.ServiceChainReconcile
import DocaPlatform.LegacyHandoff
import DocaPlatform.AgentStatusManager
import DocaPlatform.ServiceChainResync
import DocaPlatform.SFPlan
import DocaPlatform.DeploymentSelectors
import DocaPlatform.NodeMetadata
import DocaPlatform.VfMac
import DocaPlatform.ConfigPortEndpoints
import DocaPlatform.DependencyMarks
import DocaPlatform.DevicePlugin

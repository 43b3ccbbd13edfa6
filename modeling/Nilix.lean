import Nilix.Mm.HeapSystem
import Nilix.Cap.System
import Nilix.Seccomp.State
import Nilix.Ipc.PipeWake
import Nilix.Ipc.WaitContract
import Nilix.Rcu.GracePeriod
import Nilix.Ns.IdTranslation
import Nilix.Ns.InitCascade
import Nilix.Cgroup.TaskContract
import Nilix.Cgroup.IoProgress
import Nilix.Audit.Export
import Nilix.Vfs.MountContract
import Nilix.Vfs.PathConfined
import Nilix.Vfs.RamFsRename
import Nilix.Net.ConntrackIcmp
import Nilix.Net.Checksum
import Nilix.Net.FragmentLanes
import Nilix.Net.TcpSendSafe
import Nilix.Net.TcpStream

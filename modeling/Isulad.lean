import Isulad.Container.Backoff
import Isulad.Container.Delete
import Isulad.Container.EventsHandler
import Isulad.Container.Limits
import Isulad.Container.Logs
import Isulad.Container.Rename
import Isulad.Cri.RequestCache
import Isulad.DevMapper.Recovery
import Isulad.Events.Buffer
import Isulad.Exec.Environment
import Isulad.Map.Dictionary
import Isulad.Path.Fields
import Isulad.Path.Realpath
import Isulad.Registry.Applied
import Isulad.Registry.Auths
import Isulad.Registry.ImageName
import Isulad.Registry.Resume
import Isulad.Registry.Config
import Isulad.Spec.MergeMounts
import Isulad.Spec.VolumeOptions
import Isulad.Spec.MountSpec
import Isulad.Spec.Seccomp
import Isulad.Storage.BigData
import Isulad.Storage.ImageAtomic
import Isulad.Storage.ImageDigests
import Isulad.Storage.ImageDisk
import Isulad.Storage.Mounts
import Isulad.Storage.Lookup
import Isulad.Storage.Overlay
import Isulad.Storage.ParentWalks
import Isulad.Storage.RootfsAtomic
import Isulad.Tar.HardLinks
import Isulad.Tar.Opaque
import Isulad.Utils.Query
import Isulad.Utils.ByteSize
import Isulad.Utils.Timestamp
import Isulad.Container.Labels

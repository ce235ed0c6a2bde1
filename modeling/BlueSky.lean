import BlueSky.Journal.RoundTrip
import BlueSky.File.Refinement
import BlueSky.Journal.Replay
import BlueSky.Lib.Transition
import BlueSky.Lib.Precedence
import BlueSky.Proxy.Mountable
import BlueSky.Proxy.Recovery
import BlueSky.Proxy.MapHistory
import BlueSky.Cloud.Decoders
import BlueSky.Cloud.CacheFile
import BlueSky.Cloud.Graph
import BlueSky.Inode.Serialize
import BlueSky.Inode.Dirty
import BlueSky.Nfs.Names
import BlueSky.Nfs.Locks
import BlueSky.Nfs.Rpc
import BlueSky.Nfs.Listing
import BlueSky.Cloud.Refcount
import BlueSky.Proxy.Marker
import BlueSky.Proxy.EraseFetch
import BlueSky.Cloud.Accounting
import BlueSky.Cloud.MapLookup
import BlueSky.File.DirtyCount
import BlueSky.Nfs.ReadWrite
import BlueSky.Cloud.Upload
import BlueSky.Store.Ranges
import BlueSky.Store.Results
import BlueSky.Store.KvClient
import BlueSky.Directory.Folded
import BlueSky.Nfs.Rename
import BlueSky.Nfs.ListingProgress
import BlueSky.Cloud.CacheOverlap
import BlueSky.Cloud.MapRaw
import BlueSky.Cloud.CheckpointScan
import BlueSky.Cloud.Prefetch
import BlueSky.Journal.CacheLookup
import BlueSky.Journal.Bounds
import BlueSky.Nfs.RpcHeader
import BlueSky.Store.Notifiers
import BlueSky.Inode.LruLists
import BlueSky.Nfs.Server
import BlueSky.Cloud.Collect
import BlueSky.Store.SocketPool

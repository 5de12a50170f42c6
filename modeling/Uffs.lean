import Uffs.Model.Fs
import Uffs.Crash.Append
import Uffs.Nodes.Frame
import Uffs.Nodes.Erased
import Uffs.Nodes.Flush
import Uffs.Files.Within
import Uffs.Nodes.Groups
import Uffs.Nodes.Pending
import Uffs.Nodes.Files
import Uffs.Nodes.Mount
import Uffs.Nodes.Sessions
import Uffs.Files.Device
import Uffs.Cache.Frame
import Uffs.Cache.Flush
import Uffs.Cache.Sessions
import Uffs.Pool.Frame
import Uffs.Pool.Flush
import Uffs.Pool.Files
import Uffs.Pool.Sessions
import Uffs.Lib.Flip
import Uffs.Model.Ecc
import Uffs.Ecc.Chunk
import Uffs.Model.Spare
import Uffs.Ecc.RoundTrip
import Uffs.Ecc.Tag
import Uffs.Ecc.Detect
import Uffs.Tree.Suspend
import Uffs.Model.Init
import Uffs.Model.MountTable
import Uffs.Mount.Retry
import Uffs.Model.Partition
import Uffs.Mount.Sentinels
import Uffs.Model.Fd
import Uffs.Refs.Objects
import Uffs.Refs.Handles
import Uffs.Refs.Runs
import Uffs.Mount.Unmount
import Uffs.Good.Append
import Uffs.Good.Erased
import Uffs.Good.Copy
import Uffs.Good.Recover
import Uffs.Good.Agree
import Uffs.Mem.Iterate
import Uffs.Ecc.Verify
import Uffs.Find.Listing
import Uffs.Retry.Always
import Uffs.Retry.Recover
import Uffs.Retry.Flips
import Uffs.Model.Path
import Uffs.Path.Parse
import Uffs.Marks.Relations
import Uffs.Marks.Sessions
import Uffs.Ecc.Crc
import Uffs.Good.Length
import Uffs.Path.Match
import Uffs.Pool.Append
import Uffs.Model.Links
import Uffs.Links.Find
import Uffs.Links.Sweep
import Uffs.Links.Runs
import Uffs.Lib.Trace
import Uffs.Pending.Drops
import Uffs.Pending.Entry
import Uffs.Pending.Runs
import Uffs.Good.Tidy
import Uffs.Crash.Copy
import Uffs.Crash.Recover
import Uffs.Good.Cleared
import Uffs.Good.Mirror
import Uffs.Good.Remount
import Uffs.Lib.DList
import Uffs.Model.BufLinks
import Uffs.Lib.Sim
import Uffs.Links.Buffers
import Uffs.Model.BcLinks
import Uffs.Links.Cache
import Uffs.Reading.Files
import Uffs.Reading.Clean
import Uffs.Reading.Mounted
import Uffs.Reading.Bytes
import Uffs.Reading.Packed
import Uffs.Find.Deletions

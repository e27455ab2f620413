import Ximg.Library.Program
import Ximg.Library.Text
import Ximg.Library.Chaining
import Ximg.Library.SineTable
import Ximg.Library.MessageDigest
import Ximg.Library.Base64
import Ximg.Library.FileTree
import Ximg.Library.Disk
import Ximg.Zmd5
import Ximg.Digest
import Ximg.Zaccess
import Ximg.AccessRules
import Ximg.Zcommon
import Ximg.Environment
import Ximg.Zutil
import Ximg.Xutil
import Ximg.Xparser
import Ximg.MultipartBounds
import Ximg.Zcache
import Ximg.Zdb
import Ximg.Zscale
import Ximg.Zlscale
import Ximg.Zimg
import Ximg.Conversion
import Ximg.GetContract
import Ximg.FileSpecs
import Ximg.ServerSpecs
import Ximg.Layout
import Ximg.DiskStore
import Ximg.DbStore
import Ximg.Main
import Ximg.StoreMap
import Ximg.Keys
import Ximg.StoreRefinement
import Ximg.LongPaths
import Ximg.DeleteContract
import Ximg.CacheTransparency
import Ximg.StoreIntegrity
import Ximg.MultipartRoundTrip
import Ximg.Library.Interpretation
import Ximg.Httpd
import Ximg.Zhttpd
import Ximg.Xhttpd
import Ximg.Base64RoundTrip
import Ximg.BodyHandover
import Ximg.UploadParse
import Ximg.UploadFilter
import Ximg.Truncation
import Ximg.HandlerSpecs
import Ximg.UploadGate
import Ximg.ClientAddress
import Ximg.GetAnswers
import Ximg.BoundaryExtraction
import Ximg.RenditionPaths
import Ximg.AccessRanges
import Ximg.ConfHeaders
import Ximg.Geometry
import Ximg.Proportions
import Ximg.Library.Interleaving
import Ximg.ConcurrentUploads
import Ximg.DecoderBounds
import Ximg.SubstringSearch
import Ximg.Identifiers
import Ximg.Library.Heap
import Ximg.Xlist
import Ximg.ListRepresentation
import Ximg.Zlog
import Ximg.LogSlots
import Ximg.UploadReport
import Ximg.DeleteTree
import Ximg.Library.Places
import Ximg.MakeDirs
import Ximg.ConcurrentDirs
import Ximg.Library.Simulation
import Ximg.Output
import Ximg.Callbacks
import Ximg.Service
import Ximg.CallbackSpecs
import Ximg.ServerRefinement
import Ximg.Clients
import Ximg.ClientHistories
import Ximg.Replies
import Ximg.Library.BusyWaiting
import Ximg.Zspinlock
import Ximg.LogAtomicity
import Ximg.Htparse
import Ximg.HtparseSplits
import Ximg.Evhtp
import Ximg.QueryRoundTrip
import Ximg.WireRequests
import Ximg.WireMessages
import Ximg.WireRoundTrip

import V9xRemote.Lib.Trace
import V9xRemote.Lib.FileStore
import V9xRemote.Spec.UpdateProto
import V9xRemote.Spec.Remote
import V9xRemote.Spec.Files
import V9xRemote.Proof.RelayText
import V9xRemote.Proof.SessionStep
import V9xRemote.Proof.CommandIntegrity
import V9xRemote.Proof.Pause
import V9xRemote.Proof.Promote
import V9xRemote.Proof.UploadDos
import V9xRemote.Proof.PromoteAtomic
import V9xRemote.Proof.PromoteRace
import V9xRemote.Proof.HotSwap
import V9xRemote.Proof.VncKeys
import V9xRemote.Lib.NameTree
import V9xRemote.Spec.Screenshot
import V9xRemote.Proof.Screenshot
import V9xRemote.Spec.Python
import V9xRemote.Proof.PutStream
import V9xRemote.Spec.RelaySession
import V9xRemote.Proof.RelayUp
import V9xRemote.Proof.RelayDown
import V9xRemote.Proof.Chat
import V9xRemote.Proof.RebootProof
import V9xRemote.Lib.Runs
import V9xRemote.Spec.VncFormat
import V9xRemote.Spec.VncFrame
import V9xRemote.Spec.VncSession
import V9xRemote.Lib.BitFields
import V9xRemote.Proof.VncFormat
import V9xRemote.Proof.VncFrame
import V9xRemote.Lib.Raster
import V9xRemote.Spec.VncHextile
import V9xRemote.Proof.VncHextile
import V9xRemote.Lib.Probing
import V9xRemote.Lib.Repeats
import V9xRemote.Lib.Packing
import V9xRemote.Spec.VncZrle
import V9xRemote.Proof.VncZrle
import V9xRemote.Proof.VncFull
import V9xRemote.Lib.InPlace
import V9xRemote.Proof.VncCopy
import V9xRemote.Proof.VncSampled
import V9xRemote.Lib.Canonical
import V9xRemote.Lib.Deflate
import V9xRemote.Lib.Checked
import V9xRemote.Spec.Inflate
import V9xRemote.Proof.InflateCodes
import V9xRemote.Proof.Inflate
import V9xRemote.Proof.InflateHeader
import V9xRemote.Proof.InflateStream
import V9xRemote.Spec.VncDeflate
import V9xRemote.Proof.VncDeflate
import V9xRemote.Lib.Dialogue
import V9xRemote.Spec.McpCodec
import V9xRemote.Spec.McpDiscovery
import V9xRemote.Spec.McpImage
import V9xRemote.Spec.McpWorld
import V9xRemote.Spec.McpRelay
import V9xRemote.Spec.McpClient
import V9xRemote.Spec.McpTransfer
import V9xRemote.Lib.Cursor
import V9xRemote.Spec.Responses
import V9xRemote.Proof.Responses
import V9xRemote.Spec.Lists
import V9xRemote.Proof.Lists
import V9xRemote.Spec.RelayDown
import V9xRemote.Proof.RelayBatch
import V9xRemote.Lib.Scan
import V9xRemote.Proof.UpdateIni
import V9xRemote.Spec.UpdateRelease
import V9xRemote.Proof.UpdateRelease
import V9xRemote.Spec.ZipRead
import V9xRemote.Proof.ZipRead
import V9xRemote.Lib.Marker
import V9xRemote.Spec.Http
import V9xRemote.Proof.Http
import V9xRemote.Spec.SelfUpdate
import V9xRemote.Proof.SelfUpdate
import V9xRemote.Lib.Arrivals
import V9xRemote.Spec.Serve
import V9xRemote.Proof.Serve
import V9xRemote.Spec.Mdns
import V9xRemote.Proof.Mdns
import V9xRemote.Proof.McpMdns
import V9xRemote.Lib.Blocks
import V9xRemote.Lib.Fips
import V9xRemote.Spec.Sha512
import V9xRemote.Proof.Sha512
import V9xRemote.Lib.Ladder
import V9xRemote.Lib.Limbs
import V9xRemote.Lib.Edwards
import V9xRemote.Spec.Ed25519
import V9xRemote.Proof.Ed25519Curve
import V9xRemote.Proof.Ed25519Field
import V9xRemote.Proof.Ed25519Point
import V9xRemote.Proof.Ed25519Decode
import V9xRemote.Proof.Ed25519Scalar
import V9xRemote.Proof.Ed25519
import V9xRemote.Proof.Ed25519Order
import V9xRemote.Spec.Delete
import V9xRemote.Proof.Delete
import V9xRemote.Spec.Download
import V9xRemote.Proof.Download
import V9xRemote.Proof.Inventory
import V9xRemote.Proof.VncBound
import V9xRemote.Proof.ZipFind
import V9xRemote.Lib.Pieces
import V9xRemote.Spec.IniRepair
import V9xRemote.Proof.IniRepair
import V9xRemote.Spec.Shotxf
import V9xRemote.Proof.Rle8
import V9xRemote.Proof.ShotRle8
import V9xRemote.Proof.ShotBox
import V9xRemote.Proof.ShotBmp
import V9xRemote.Proof.ShotPack
import V9xRemote.Proof.ShotResample
import V9xRemote.Proof.ShotIndex
import V9xRemote.Proof.ShotDecode
import V9xRemote.Proof.Shotxf
import V9xRemote.Proof.ShotHost
import V9xRemote.Spec.TextScan
import V9xRemote.Proof.TextScan
import V9xRemote.Proof.ReadText
import V9xRemote.Proof.TextLines
import V9xRemote.Spec.Chat
import V9xRemote.Proof.ChatLog
import V9xRemote.Proof.ChatEntries
import V9xRemote.Proof.MdnsNames
import V9xRemote.Proof.MdnsQuery
import V9xRemote.Proof.MdnsQuestions
import V9xRemote.Proof.UpdateVersion
import V9xRemote.Lib.Reading
import V9xRemote.Spec.UpdateRead
import V9xRemote.Proof.IniReading
import V9xRemote.Lib.Words
import V9xRemote.Spec.Ed25519Words
import V9xRemote.Proof.Ed25519Exact
import V9xRemote.Proof.Sha256
import V9xRemote.Proof.UpdateHead
import V9xRemote.Spec.UpdateUrl
import V9xRemote.Proof.Url
import V9xRemote.Lib.Percent
import V9xRemote.Spec.UrlCode
import V9xRemote.Proof.UrlCode
import V9xRemote.Spec.Input
import V9xRemote.Proof.Input
import V9xRemote.Lib.Persist
import V9xRemote.Spec.InstallId
import V9xRemote.Spec.DosConfig
import V9xRemote.Proof.InstallId
import V9xRemote.Lib.Crc
import V9xRemote.Proof.Crc32
import V9xRemote.Spec.Inventory
import V9xRemote.Proof.InvNumbers
import V9xRemote.Lib.Des
import V9xRemote.Spec.VncDes
import V9xRemote.Proof.VncDes
import V9xRemote.Spec.Exec
import V9xRemote.Proof.Exec
import V9xRemote.Spec.DosExec
import V9xRemote.Proof.DosExec
import V9xRemote.Spec.PutStream
import V9xRemote.Proof.PutPipe
import V9xRemote.Spec.VncClip
import V9xRemote.Proof.VncClip
import V9xRemote.Spec.VncMirror
import V9xRemote.Proof.VncMirror
import V9xRemote.Lib.Talk
import V9xRemote.Spec.VncWire
import V9xRemote.Proof.VncWire
import V9xRemote.Spec.GuestFiles
import V9xRemote.Proof.HostWire
import V9xRemote.Proof.GetFile
import V9xRemote.Proof.ListDir
import V9xRemote.Spec.GuestExec
import V9xRemote.Proof.HostExec
import V9xRemote.Proof.PutDelivers
import V9xRemote.Proof.VncJobs
import V9xRemote.Proof.Tunnel

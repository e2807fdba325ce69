import Lzip.Basic
import Lzip.Crc32
import Lzip.Header
import Lzip.Trailer
import Lzip.Index.Basic
import Lzip.Index.SkipTrailing
import Lzip.Index.ScanBounds
import Lzip.Index.Build
import Lzip.Index.Complete
import Lzip.TrailingData
import Lzip.Decoder.Basic
import Lzip.Decoder.Lz77
import Lzip.Decoder.Run
import Lzip.Decoder.Member
import Lzip.Compress
import Lzip.Decompress
import Lzip.Format
import Lzip.CommandLine
import Lzip.Names
import Lzip.Dirs
import Lzip.FileLoop
import Lzip.ListFiles
import Lzip.VolumeSwitch

import Imagezip.Range
import Imagezip.Bytes
import Imagezip.ImageHdr
import Imagezip.ImageDump
import Imagezip.DumpStats
import Imagezip.DumpAccounting
import Imagezip.Hashmap.State
import Imagezip.Hashmap.Helpers
import Imagezip.Hashmap.Pieces
import Imagezip.Hashmap.SigFile
import Imagezip.Hashmap.Delta
import Imagezip.Hashmap.DeltaStep
import Imagezip.Hashmap.Cursor
import Imagezip.Hashmap.MergeInv
import Imagezip.Hashmap.DeltaExact
import Imagezip.Hashmap.SigHashes
import Imagezip.Hashmap.StepClosed
import Imagezip.Hashmap.FixupLog
import Imagezip.Hashmap.Rerun
import Imagezip.Hashmap.SigShape
import Imagezip.Hashmap.SigWrite
import Imagezip.Hashmap.WriteFrame
import Imagezip.Hashmap.SigCheck
import Imagezip.Hashmap.UpdateChunk
import Imagezip.Ndz.Reloc
import Imagezip.Ndz.RelocOrder
import Imagezip.Ndz.RelocQuery
import Imagezip.Frisbee.Event

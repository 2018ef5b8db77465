import Brandy.Theory.CompImage
import Brandy.Theory.Efex.Answers
import Brandy.Theory.Fastboot.Answered
import Brandy.Theory.Fastboot.Durable
import Brandy.Theory.Fastboot.Inside
import Brandy.Theory.Gpt.Runs
import Brandy.Theory.ImageVerifier
import Brandy.Theory.Keybox
import Brandy.Theory.LoadImage
import Brandy.Theory.MtdPart.Reading
import Brandy.Theory.NandSecStorage.Cache
import Brandy.Theory.PartitionVerifier
import Brandy.Theory.RawNand.BadBlocks
import Brandy.Theory.RawNand.Recovery
import Brandy.Theory.SecStorage.Frame
import Brandy.Theory.SecureObject
import Brandy.Theory.Sparse.Stream
import Brandy.Theory.SpinandBoot.RoundTrip
import Brandy.Theory.SpinandCache
import Brandy.Theory.SpinandKernel
import Brandy.Theory.SpinandMtd
import Brandy.Theory.SpinandSec.Consistency
import Brandy.Theory.SpinandSec.Ecc
import Brandy.Theory.SplHeap
import Brandy.Theory.SplLoader.Loaders
import Brandy.Theory.SpriteCard
import Brandy.Theory.SwitchSystem
import Brandy.Theory.UbiBurn.Exact
import Brandy.Theory.UbiMbr
import Brandy.Theory.Ufs.SecStorage
import Brandy.Theory.Vbmeta.Key
import Brandy.Theory.Vbmeta.Walk

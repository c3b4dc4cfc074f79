import Ryklys.AcceptLoop
import Ryklys.Base64Sound
import Ryklys.BoundsSound
import Ryklys.CandidateSound
import Ryklys.ChatHistory
import Ryklys.ChatViewSound
import Ryklys.CleanupSound
import Ryklys.CloseLastSound
import Ryklys.CloseSound
import Ryklys.ControlSound
import Ryklys.CookieAuth
import Ryklys.CounterSound
import Ryklys.EchoSound
import Ryklys.EmailSound
import Ryklys.EofSound
import Ryklys.FanoutSound
import Ryklys.FfmpegCommand
import Ryklys.HeaderCaseSound
import Ryklys.HeaderSplitSound
import Ryklys.KeepAliveSound
import Ryklys.LengthSound
import Ryklys.LiveStreamSound
import Ryklys.OutputSound
import Ryklys.PatternSound
import Ryklys.PipelineSound
import Ryklys.PlaybackSound
import Ryklys.PlaylistSound
import Ryklys.PoolSound
import Ryklys.PoolWakeupSound
import Ryklys.RedeliverySound
import Ryklys.RedisCodecSound
import Ryklys.RedisCutSound
import Ryklys.RedisSound
import Ryklys.ReleaseSound
import Ryklys.ResponseSound
import Ryklys.RouteSound
import Ryklys.RouteTree
import Ryklys.ScanSound
import Ryklys.SerializeSound
import Ryklys.SessionSound
import Ryklys.TableSound
import Ryklys.ThreadPoolFinish
import Ryklys.TokenSound
import Ryklys.UpgradeSound
import Ryklys.UserRoutesSound
import Ryklys.WakeupSound

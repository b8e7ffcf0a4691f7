import Apackage.Rtp2httpd.Reorder.Retention
import Apackage.Rtp2httpd.Fec.SlotBounds
import Apackage.Rtp2httpd.Fec.Release
import Apackage.Rtp2httpd.Output.Fifo
import Apackage.Rtp2httpd.Http.ChunkedGrammar
import Apackage.Rtp2httpd.Fcc.Handover
import Apackage.Rtp2httpd.Mcast.Batches
import Apackage.Rtp2httpd.Proxy.RoundTrip
import Apackage.Rtp2httpd.Http.TokenFilter
import Apackage.Rtp2httpd.Playlist.UniqueNames
import Apackage.Rtp2httpd.Status.LogFeed
import Apackage.Rtp2httpd.Status.CrashRecovery
import Apackage.Rtp2httpd.Rtsp.Armed
import Apackage.Rtp2httpd.Rtsp.Finality
import Apackage.Rtp2httpd.Rtsp.ControlStream
import Apackage.Rtp2httpd.Rtsp.Attribution
import Apackage.Rtp2httpd.Supervisor.Remembered
import Apackage.Rtp2httpd.Player.PauseResume
import Apackage.Rtp2httpd.Player.LiveTimeline
import Apackage.Rtp2httpd.Player.AppendQueue
import Apackage.Rtp2httpd.Fec.EndToEnd
import Apackage.Rtp2httpd.Player.DecoderConfig
import Apackage.Rtp2httpd.Player.SyncLoss
import Apackage.OpenAppFilter.AppVerdict
import Apackage.OpenAppFilter.MacBlock
import Apackage.Rtp2httpd.Output.FlowControl
import Apackage.Rtp2httpd.Reorder.Withheld
import Apackage.OpenAppFilter.HostMeaning
import Apackage.Rtp2httpd.Proxy.RewriteShape
import Apackage.Rtp2httpd.Time.Scan
import Apackage.Rtp2httpd.Proxy.Merge
import Apackage.Rtp2httpd.Rtsp.Draining
import Apackage.Rtp2httpd.Proxy.Controls
import Apackage.Rtp2httpd.Time.SeekRange
import Apackage.Rtp2httpd.Snapshot.Scan
import Apackage.Rtp2httpd.Stun.Response
import Apackage.Rtp2httpd.Http.FetchCommand
import Apackage.Rtp2httpd.Proxy.HostPort
import Apackage.Rtp2httpd.Status.Blocklist
import Apackage.Rtp2httpd.Http.UrlComponents
import Apackage.Rtp2httpd.Playlist.Etag
import Apackage.Rtp2httpd.Player.SectionPacking
import Apackage.Rtp2httpd.Player.PesLoss
import Apackage.Rtp2httpd.Playlist.WholeUrls
import Apackage.Rtp2httpd.Web.UrlLabel
import Apackage.Rtp2httpd.Web.MediaFilename
import Apackage.Rtp2httpd.Web.CatchupWindows
import Apackage.Rtp2httpd.Web.EpgChannels
import Apackage.Rtp2httpd.Player.Timestamps
import Apackage.Rtp2httpd.Player.AudioCuts
import Apackage.Rtp2httpd.Player.SpsInverse
import Apackage.Rtp2httpd.Player.Fragments
import Apackage.OpenAppFilter.ConnTable
import Apackage.OpenAppFilter.VisitReport
import Apackage.OpenAppFilter.DnsQuestions
import Apackage.Rtp2httpd.Player.Fmp4Bounds
import Apackage.OpenAppFilter.FeatureBounds
import Apackage.OpenAppFilter.RegexpMeaning
import Apackage.OpenAppFilter.AppIdTokens
import Apackage.SqmController.AllocatorBounds
import Apackage.Rtp2httpd.Player.ReadCalls
import Apackage.Rtp2httpd.Player.AnnexB
import Apackage.Rtp2httpd.Web.EpgLookup
import Apackage.SqmController.TlsSni

import Zouipocar.Server.RoundTrip
import Zouipocar.Server.OrderedQueries
import Zouipocar.Server.LastFix
import Zouipocar.Server.Track
import Zouipocar.Server.Restart
import Zouipocar.Server.Handlers
import Zouipocar.Server.Requests
import Zouipocar.Server.FirstFix
import Zouipocar.Server.RangeScan
import Zouipocar.Server.Session
import Zouipocar.Server.Listeners
import Zouipocar.Server.Udp
import Zouipocar.Web.ParseFix
import Zouipocar.Web.Polling
import Zouipocar.Web.LiveMap
import Zouipocar.Web.Watching
import Zouipocar.Web.TimelinePage
import Zouipocar.Web.Timeline
import Zouipocar.Tracker.RmcSequence
import Zouipocar.Tracker.RmcFields
import Zouipocar.Tracker.Speed
import Zouipocar.Tracker.RmcReport
import Zouipocar.Tracker.Link
import Zouipocar.Tracker.Transmit
import Zouipocar.Tracker.Prompt
import Zouipocar.Tracker.Unsolicited
import Zouipocar.Tracker.Replies
import Zouipocar.Tracker.Main
import Zouipocar.Tracker.GpsTime
import Zouipocar.Lib.Emits
import Zouipocar.Tracker.Commands
import Zouipocar.Tracker.Dialogue
import Zouipocar.Lib.Stages
import Zouipocar.Tracker.Program
import Zouipocar.Tracker.SetUp
import Zouipocar.Tracker.Payload
import Zouipocar.Tracker.Registers
import Zouipocar.Tracker.Pins
import Zouipocar.Lib.Fuel
import Zouipocar.Tracker.Returns
import Zouipocar.Server.Provenance
import Zouipocar.Server.Recorder
import Zouipocar.Server.Lifetime
import Zouipocar.Pipeline

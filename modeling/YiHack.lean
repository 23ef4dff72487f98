import YiHack.Motion.DeliveryBurst
import YiHack.Record.History
import YiHack.Record.LevelSnapshot
import YiHack.Motion.DeliverySession
import YiHack.Motion.Daemon
import YiHack.General.Boxes
import YiHack.Record.FileIo
import YiHack.Record.Movie
import YiHack.Record.BuildJson
import YiHack.Record.Reconstruct
import YiHack.Record.Finalize
import YiHack.General.Wrap
import YiHack.Video.FrameRing
import YiHack.Video.FrameRun
import YiHack.Ftp.Queue
import YiHack.Ftp.QueueSafe
import YiHack.Ftp.Remote
import YiHack.Nightvision.Adoption
import YiHack.Nightvision.Recovery
import YiHack.Iva.Exclusion
import YiHack.Wifi.Gating
import YiHack.Tuning.Agreement
import YiHack.Mqtt.Message
import YiHack.Spatial.Restart
import YiHack.Spatial.Score
import YiHack.Spatial.Fallback
import YiHack.Motion.Hysteresis
import YiHack.General.Shell
import YiHack.General.Threads
import YiHack.General.Seqlock
import YiHack.Upgrade.Script
import YiHack.Upgrade.Rollback
import YiHack.Upgrade.Request
import YiHack.Record.EventSnapshot
import YiHack.Spatial.Alone
import YiHack.Alarm.Files
import YiHack.Audio.Speaker
import YiHack.Config.Work
import YiHack.Provision.Merge
import YiHack.Provision.Commit
import YiHack.Hotspot.Requests
import YiHack.Ash.Lock
import YiHack.Ash.Owners
import YiHack.FlashCore.Script
import YiHack.FlashCore.Frame
import YiHack.Rtsp.FrameClock
import YiHack.Record.Preroll
import YiHack.Record.MovieTimes
import YiHack.Iva.Count
import YiHack.Record.LevelBurst
import YiHack.Record.LevelOrder
import YiHack.General.Orbit
import YiHack.Snapshot.Grabber
import YiHack.Snapshot.Laps
import YiHack.Video.Placement
import YiHack.Rtsp.VideoSource
import YiHack.FlashCore.PowerLoss
import YiHack.Boot.PatchUimage
import YiHack.General.Scan
import YiHack.Motion.VeGuard
import YiHack.Hotspot.ResetButton
import YiHack.Audio.Wav
import YiHack.General.Samples
import YiHack.Audio.Pcmvol
import YiHack.Audio.TalkBack
import YiHack.Mqtt.Documented
import YiHack.Mqtt.Buffers
import YiHack.General.Find
import YiHack.Rtsp.Backchannel
import YiHack.General.Glob
import YiHack.Cgi.EventsDelete
import YiHack.Mqtt.ConfigReplace
import YiHack.General.LineEdit
import YiHack.Config.Migration
import YiHack.FlashCore.CleanImage
import YiHack.Record.Tracked
import YiHack.Record.Fits
import YiHack.FlashCore.Abandon
import YiHack.Upgrade.Holder
import YiHack.Upgrade.Exclusion
import YiHack.General.Json
import YiHack.Record.ReadBack
import YiHack.Recovery.Resume
import YiHack.Rtsp.Pipeline
import YiHack.Ipc.DispatchPoll
import YiHack.Boot.EnsureKernel
import YiHack.Motion.Log
import YiHack.Ipc.Multiplex
import YiHack.Cgi.AudioLibrary

import Rinklers.Chrono
import Rinklers.Util
import Rinklers.SectionRunner
import Rinklers.Foundation.Service
import Rinklers.Foundation.Monitor
import Rinklers.ChronoModel
import Rinklers.SectionRunnerTrace
import Rinklers.SectionRunnerWakeUp
import Rinklers.SectionRunnerValves
import Rinklers.Foundation.First
import Rinklers.Schedule
import Rinklers.ScheduleBounds
import Rinklers.IndexMap
import Rinklers.ScheduleRunner
import Rinklers.ScheduleRunnerSleep
import Rinklers.Foundation.Format
import Rinklers.Config
import Rinklers.MqttApi
import Rinklers.RunDurations
import Rinklers.IndexMapRefinement
import Rinklers.ScheduleRunnerGuards
import Rinklers.ScheduleRunnerFirings
import Rinklers.Program
import Rinklers.ScheduleZones
import Rinklers.DurationGroups
import Rinklers.DurationText
import Rinklers.DurationItems
import Rinklers.DurationBounds
import Rinklers.IndexMapReuse
import Rinklers.ScheduleRunnerPass
import Rinklers.Foundation.Traverse
import Rinklers.State
import Rinklers.Foundation.Counted
import Rinklers.MqttCommand
import Rinklers.MqttSession
import Rinklers.Application
import Rinklers.ApplicationQueue
import Rinklers.ApplicationSchedule
import Rinklers.ApplicationCauses
import Rinklers.ApplicationValves
import Rinklers.ApplicationShutdown
import Rinklers.Foundation.Sweep
import Rinklers.ScheduleRunnerHistory
import Rinklers.Foundation.Timeline
import Rinklers.SectionRunnerWaterings
import Rinklers.DurationPrecision
import Rinklers.ScheduleWindow
import Rinklers.SectionRunnerProgress
import Rinklers.ConfigDocument

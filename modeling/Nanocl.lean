import Nanocl.Lib.Transition
import Nanocl.Lib.Except
import Nanocl.Lib.Query
import Nanocl.Lib.FirstWins
import Nanocl.System.Event
import Nanocl.Tasks.TaskManager
import Nanocl.Tasks.TaskOrder
import Nanocl.Tasks.JobAbort
import Nanocl.Lib.Prog
import Nanocl.Lib.Serde
import Nanocl.Lib.Jsonb
import Nanocl.Store.Filter
import Nanocl.Store.Process
import Nanocl.Runtime.World
import Nanocl.Runtime.Process
import Nanocl.Status.Row
import Nanocl.Status.History
import Nanocl.Tasks.LastRequest
import Nanocl.Store.Listing
import Nanocl.Store.Transport
import Nanocl.Runtime.Image
import Nanocl.Runtime.Cargo
import Nanocl.Runtime.Job
import Nanocl.Runtime.CargoDelete
import Nanocl.Runtime.Frame
import Nanocl.Runtime.Log
import Nanocl.Runtime.Create
import Nanocl.Runtime.GroupOps
import Nanocl.Runtime.Instances
import Nanocl.Runtime.StaysUp
import Nanocl.Runtime.Idle
import Nanocl.Runtime.Configs
import Nanocl.Runtime.Drift
import Nanocl.Runtime.Update
import Nanocl.Runtime.UpdateStart
import Nanocl.Runtime.UpdateReport
import Nanocl.Runtime.JobSteps
import Nanocl.Runtime.JobStart
import Nanocl.Runtime.Vm
import Nanocl.Runtime.VmStart
import Nanocl.Status.Stopped
import Nanocl.Status.StopChecks
import Nanocl.System.ExecEvent
import Nanocl.System.EventLoop
import Nanocl.System.SecretUpdate
import Nanocl.System.Sync
import Nanocl.System.SyncSpecs
import Nanocl.System.SyncRows
import Nanocl.System.SyncOrder
import Nanocl.Lib.Table
import Nanocl.Lib.Chain
import Nanocl.Objects.Tables
import Nanocl.Objects.Repository
import Nanocl.Objects.Spec
import Nanocl.Objects.Cargo
import Nanocl.Objects.VmImage
import Nanocl.Objects.Vm
import Nanocl.Lib.Split
import Nanocl.Lib.Lines
import Nanocl.Objects.Crontab
import Nanocl.Objects.Job
import Nanocl.Objects.PutFailure
import Nanocl.Objects.Resource
import Nanocl.Objects.KindKeys
import Nanocl.Objects.CreateAtomic
import Nanocl.Objects.Restart
import Nanocl.Objects.Keys
import Nanocl.Objects.ResourceCases
import Nanocl.Objects.SpecHistory
import Nanocl.Objects.NamespaceDelete
import Nanocl.Objects.ImageWrites
import Nanocl.Objects.Disks
import Nanocl.Client.ResStream
import Nanocl.Objects.Secret
import Nanocl.System.RawEmitter
import Nanocl.System.Conditions
import Nanocl.System.Subscribers
import Nanocl.Cli.Statefile
import Nanocl.Cli.SubStates
import Nanocl.Cli.Includes
import Nanocl.Cli.Waiter
import Nanocl.Cli.Orphans
import Nanocl.Objects.PatchFrame
import Nanocl.Objects.EnvVars
import Nanocl.Objects.EnvMerge
import Nanocl.Lib.Bytes
import Nanocl.Lib.Concurrent
import Nanocl.Lib.Overwrite
import Nanocl.Proxy.Rule
import Nanocl.Proxy.RuleFormat
import Nanocl.Proxy.Vpnkit
import Nanocl.Proxy.Nginx
import Nanocl.Proxy.Enabled
import Nanocl.Proxy.UpdateRules
import Nanocl.Dns.Rule
import Nanocl.Dns.Files
import Nanocl.Runtime.Secrets
import Nanocl.Runtime.SecretDelivery
import Nanocl.Lib.Reconcile
import Nanocl.Cli.Apply
import Nanocl.Cli.Backup
import Nanocl.Runtime.ImageReference
import Nanocl.Runtime.CloneProgress
import Nanocl.Store.Compile
import Nanocl.Store.OrderBy
import Nanocl.Store.Dates
import Nanocl.Store.Where
import Nanocl.Status.Counts
import Nanocl.Objects.CargoFormat
import Nanocl.Proxy.Resources
import Nanocl.Proxy.TargetKeys
import Nanocl.Proxy.SecretRules
import Nanocl.Proxy.Metric
import Nanocl.Proxy.ConfNames
import Nanocl.Dns.MainConf
import Nanocl.Cli.Binds
import Nanocl.Cli.BuildArgs
import Nanocl.Cli.Rounds
import Nanocl.Cli.Converge
import Nanocl.Lib.Mirror
import Nanocl.Objects.ControllerRules
import Nanocl.Objects.ControllerRequests
import Nanocl.Objects.Controllers
import Nanocl.Runtime.ZeroDowntime
import Nanocl.System.ProcessTable
import Nanocl.Status.JobCompletion

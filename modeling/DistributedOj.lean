import DistributedOj.Framework.Run
import DistributedOj.OjServer.Lists
import DistributedOj.OjServer.Choice
import DistributedOj.OjServer.Retry
import DistributedOj.OjServer.RetryEnds
import DistributedOj.OjServer.UpDown
import DistributedOj.OjServer.Solo
import DistributedOj.OjServer.BadStatus
import DistributedOj.OjServer.Load
import DistributedOj.OjServer.Timeout
import DistributedOj.Comm.UniqFileName
import DistributedOj.Comm.Files
import DistributedOj.CompileServer.Start
import DistributedOj.CompileServer.Job
import DistributedOj.CompileServer.Isolation
import DistributedOj.CompileServer.Descriptors
import DistributedOj.CompileServer.LogBuffer
import DistributedOj.CompileServer.Inherited
import DistributedOj.CompileServer.Notes
import DistributedOj.CompileServer.Status
import DistributedOj.CompileServer.Cleanup
import DistributedOj.Framework.Table
import DistributedOj.OjServer.Database
import DistributedOj.OjServer.Payload
import DistributedOj.OjServer.Progress
import DistributedOj.Framework.ReadWrite
import DistributedOj.OjServer.Race
import DistributedOj.OjServer.Requests
import DistributedOj.OjServer.Handlers
import DistributedOj.OjServer.Deeds
import DistributedOj.OjServer.Admins
import DistributedOj.OjServer.Anonymous
import DistributedOj.OjServer.Verdicts
import DistributedOj.OjServer.Attempts
import DistributedOj.OjServer.Sessions
import DistributedOj.Comm.Lines
import DistributedOj.OjServer.Cookies
import DistributedOj.OjServer.Conf
import DistributedOj.CompileServer.ProcLimit
import DistributedOj.OjServer.Limits
import DistributedOj.OjServer.SoftLimits
import DistributedOj.Comm.Hex
import DistributedOj.OjServer.Passwords
import DistributedOj.Framework.Lexer
import DistributedOj.OjServer.SqlText
import DistributedOj.OjServer.LoginText
import DistributedOj.OjServer.QuestionText
import DistributedOj.OjServer.Identity
import DistributedOj.CompileServer.RunFds
import DistributedOj.Framework.Signals
import DistributedOj.Comm.Stream
import DistributedOj.CompileServer.HostStatus
import DistributedOj.OjServer.Recovery
import DistributedOj.CompileServer.CpuUsage
import DistributedOj.CompileServer.NetworkUsage
import DistributedOj.CompileServer.DiskUsage
import DistributedOj.CompileServer.Connections
import DistributedOj.Comm.Times
import DistributedOj.OjServer.CompletedTime
import DistributedOj.CompileServer.Host
import DistributedOj.Framework.Simulation
import DistributedOj.OjServer.Cluster
import DistributedOj.OjServer.ClusterAnswers
import DistributedOj.OjServer.ClusterPosts
import DistributedOj.OjServer.ClusterEnds
import DistributedOj.OjServer.Kept
import DistributedOj.OjServer.Stopped
import DistributedOj.Framework.TwoRuns
import DistributedOj.OjServer.View
import DistributedOj.OjServer.Secrets
import DistributedOj.OjServer.Noninterference
import DistributedOj.OjServer.Listed
import DistributedOj.Framework.Dispatch
import DistributedOj.OjServer.Routes
import DistributedOj.CompileServer.StatusAnswer
import DistributedOj.OjServer.StatusFeed

import Gateway.Core.Access
import Gateway.Core.Arrears
import Gateway.Core.ClockOrder
import Gateway.Json.Held
import Gateway.Json.Kept
import Gateway.Json.Reread
import Gateway.Otel.Registry
import Gateway.Otel.Sink
import Gateway.Redact.Framing
import Gateway.Redact.Lines
import Gateway.Redact.Shape
import Gateway.Reqlog.FlushFailure
import Gateway.Reqlog.Forget
import Gateway.Reqlog.Policed
import Gateway.Server.Admission
import Gateway.Server.Budgets
import Gateway.Server.ByokKey
import Gateway.Server.ControlKey
import Gateway.Server.Discovery
import Gateway.Server.GeminiPath
import Gateway.Server.Hoisting
import Gateway.Server.ImportTwice
import Gateway.Server.KeyPatches
import Gateway.Server.KeyTeams
import Gateway.Server.LastAdmin
import Gateway.Server.NamesApart
import Gateway.Server.OwnRows
import Gateway.Server.OwnView
import Gateway.Server.Privileges
import Gateway.Server.ProviderRace
import Gateway.Server.Reloads
import Gateway.Server.RetryAfter
import Gateway.Server.RunCall
import Gateway.Server.Settings
import Gateway.Server.Tags
import Gateway.Server.TraceContext
import Gateway.Service.BufferedStream
import Gateway.Service.CachedTokens
import Gateway.Service.ClientUsage
import Gateway.Service.Echo
import Gateway.Service.EndpointTurns
import Gateway.Service.Headers
import Gateway.Service.LeastBusy
import Gateway.Service.RecordedOnce
import Gateway.Service.RenameSteps
import Gateway.Service.RoundRobin
import Gateway.Service.StreamEnd
import Gateway.Service.UsageReport
import Gateway.Service.Videos
import Gateway.Service.WholeBody
import Gateway.Store.Access
import Gateway.Store.StoredTimes
import Gateway.Wire.Anthropic.BlocksKept
import Gateway.Wire.Anthropic.Parse
import Gateway.Wire.Anthropic.Relayed
import Gateway.Wire.Counts
import Gateway.Wire.DataUrl
import Gateway.Wire.Embed.Entries
import Gateway.Wire.Embed.GeminiBatch
import Gateway.Wire.Embed.Places
import Gateway.Wire.Exchanges
import Gateway.Wire.Gemini.Calls
import Gateway.Wire.Gemini.Names
import Gateway.Wire.Instructions
import Gateway.Wire.Lifecycle.Anthropic
import Gateway.Wire.Lifecycle.OpenaiChat
import Gateway.Wire.Lifecycle.OpenaiResponses
import Gateway.Wire.Media.Forms
import Gateway.Wire.Media.Video
import Gateway.Wire.OpenaiChat.Chained
import Gateway.Wire.OpenaiChat.Choices
import Gateway.Wire.OpenaiChat.Emitted
import Gateway.Wire.OpenaiResponses.Answer
import Gateway.Wire.OpenaiResponses.Emit
import Gateway.Wire.OpenaiResponses.Relayed
import Gateway.Wire.ParallelCalls
import Gateway.Wire.ReadBack
import Gateway.Wire.Reconstruction
import Gateway.Wire.ToolPairing

import GatewayPoc.Core.Lists
import GatewayPoc.Core.Machine
import GatewayPoc.Core.Ledger
import GatewayPoc.Core.ExclusivePool
import GatewayPoc.Core.Decimal
import GatewayPoc.Core.DecimalOrder
import GatewayPoc.Core.Framing
import GatewayPoc.Core.JsonText
import GatewayPoc.Core.Conninfo
import GatewayPoc.Common.Instrument
import GatewayPoc.Common.Config
import GatewayPoc.Common.ConnectionString
import GatewayPoc.Common.ResolveHost
import GatewayPoc.GwBack.Consumer
import GatewayPoc.GwBack.FileName
import GatewayPoc.GwBack.Chunking
import GatewayPoc.GwBack.PostgresProducer
import GatewayPoc.GwBack.Process
import GatewayPoc.GwBack.RunLoop
import GatewayPoc.GwBack.ExactlyOnce
import GatewayPoc.GwBack.Custody
import GatewayPoc.Redis.Stream
import GatewayPoc.Redis.Hiredis
import GatewayPoc.GwFront.RedisWriter
import GatewayPoc.GwBack.RedisProducer
import GatewayPoc.GwBack.RedisIds
import GatewayPoc.GwBack.ReplyReader
import GatewayPoc.Gateway.RedisClients
import GatewayPoc.Gateway.Payloads
import GatewayPoc.GwFront.PostgresWriter
import GatewayPoc.GwFront.ConnectionPool
import GatewayPoc.GwFront.JsonChecker
import GatewayPoc.GwFront.FlatbuffersChecker
import GatewayPoc.GwFront.Formats
import GatewayPoc.GwFront.HttpServer
import GatewayPoc.GwFront.HttpSession
import GatewayPoc.GwFront.ErrorBody
import GatewayPoc.Gateway.OutputFiles
import GatewayPoc.GwBack.Config
import GatewayPoc.Gateway.Configs
import GatewayPoc.Gateway.Storage
import GatewayPoc.Redis.Attempts
import GatewayPoc.GwBack.RedisLoop
import GatewayPoc.GwBack.RedisRefinement
import GatewayPoc.GwBack.RedisDelivery
import GatewayPoc.Core.Batches
import GatewayPoc.GwBack.Handed
import GatewayPoc.GwBack.Files
import GatewayPoc.GwBack.Progress
import GatewayPoc.GwFront.Requests
import GatewayPoc.Gateway.PostgresGateway
import GatewayPoc.Gateway.RedisGateway
import GatewayPoc.Gateway.Lines
import GatewayPoc.GwBack.Order
import GatewayPoc.GwBack.RedisDrain
import GatewayPoc.GwBack.RedisStall
import GatewayPoc.GwFront.Answering
import GatewayPoc.Gateway.Clients
import GatewayPoc.Gateway.Completion
import GatewayPoc.Core.Runs
import GatewayPoc.GwBack.Eventually
import GatewayPoc.GwBack.RedisEventually
import GatewayPoc.GwFront.Eventually
import GatewayPoc.Gateway.Eventually

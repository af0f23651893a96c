import Pheidippides.Primitives.System
import Pheidippides.Primitives.Broadcast
import Pheidippides.Primitives.SkipPast
import Pheidippides.Primitives.Paging
import Pheidippides.Primitives.Like
import Pheidippides.Primitives.PercentEncoding
import Pheidippides.Primitives.Program
import Pheidippides.Primitives.Recency
import Pheidippides.Primitives.Grouping
import Pheidippides.Primitives.Scan
import Pheidippides.Primitives.MapM
import Pheidippides.Primitives.Assignments
import Pheidippides.Primitives.Quoting
import Pheidippides.Primitives.Utf8
import Pheidippides.Primitives.EventStream
import Pheidippides.Primitives.HttpMessage
import Pheidippides.Objects.Basic
import Pheidippides.Objects.DataAccess
import Pheidippides.Objects.LawfulStore
import Pheidippides.Objects.MockDb
import Pheidippides.Objects.Theorems.MockDb
import Pheidippides.Objects.Theorems.Messages
import Pheidippides.Objects.Theorems.Paging
import Pheidippides.Objects.Theorems.Chats
import Pheidippides.Messenger.Theorems.SubscriptionsHandler
import Pheidippides.Messenger.Theorems.Cleanup
import Pheidippides.Messenger.World
import Pheidippides.Messenger.Theorems.Stream
import Pheidippides.Messenger.Theorems.World
import Pheidippides.Messenger.Theorems.CatchUp
import Pheidippides.Messenger.Theorems.Provenance
import Pheidippides.Messenger.Theorems.Client
import Pheidippides.Messenger.Theorems.Delivery
import Pheidippides.Messenger.Theorems.Messenger
import Pheidippides.Messenger.Theorems.Accounts
import Pheidippides.Messenger.Theorems.Credentials
import Pheidippides.Messenger.Theorems.Signups
import Pheidippides.Messenger.Forwarding
import Pheidippides.Messenger.Theorems.Forwarding
import Pheidippides.Utils.Theorems.FormData
import Pheidippides.Utils.Theorems.Http
import Pheidippides.Postgres.Db
import Pheidippides.Postgres.Users
import Pheidippides.Postgres.Identifiers
import Pheidippides.Postgres.Theorems.Identifiers
import Pheidippides.Postgres.Theorems.Users
import Pheidippides.Postgres.Theorems.Search
import Pheidippides.Postgres.Theorems.History
import Pheidippides.Postgres.Theorems.Sends
import Pheidippides.Postgres.Theorems.Agreement
import Pheidippides.Postgres.Theorems.Chats
import Pheidippides.Web.Routing
import Pheidippides.Web.InMemory
import Pheidippides.Web.Theorems.Routing
import Pheidippides.Web.Theorems.Sessions
import Pheidippides.Web.Theorems.Messages
import Pheidippides.Web.Theorems.Isolation
import Pheidippides.Web.Page
import Pheidippides.Web.Tab
import Pheidippides.Web.Theorems.Tab
import Pheidippides.Web.Theorems.SelectedChat
import Pheidippides.Web.Theorems.OpenChat
import Pheidippides.Web.ChatList
import Pheidippides.Web.Theorems.ChatList
import Pheidippides.Web.RoutingTable
import Pheidippides.Web.Theorems.RoutingTable
import Pheidippides.HttpServer.Request
import Pheidippides.HttpServer.Grammar
import Pheidippides.HttpServer.Theorems.Request
import Pheidippides.HttpServer.Theorems.Written
import Pheidippides.HttpServer.Response
import Pheidippides.HttpServer.Theorems.Response
import Pheidippides.HttpServer.EventSource
import Pheidippides.HttpServer.Theorems.EventSource
import Pheidippides.HttpServer.HttpResponse
import Pheidippides.Web.EventStream
import Pheidippides.Web.Theorems.EventStream
import Pheidippides.HttpServer.Reading
import Pheidippides.HttpServer.Theorems.Reading
import Pheidippides.Web.Contract
import Pheidippides.Web.Theorems.Contract
import Pheidippides.Web.Listener
import Pheidippides.Web.Theorems.Listener
import Pheidippides.Web.Theorems.Answers
import Pheidippides.Web.Rendering
import Pheidippides.Web.Theorems.Rendering
import Pheidippides.Web.Ledger
import Pheidippides.Web.Theorems.Ledger
import Pheidippides.Primitives.Transactions
import Pheidippides.Auth.AuthenticationInfo
import Pheidippides.Postgres.Auth
import Pheidippides.Postgres.Theorems.Auth
import Pheidippides.Postgres.Store
import Pheidippides.Postgres.Theorems.Store
import Pheidippides.Postgres.Pool
import Pheidippides.Postgres.Theorems.Pool
import Pheidippides.Postgres.Reads
import Pheidippides.Postgres.Theorems.Reads
import Pheidippides.Postgres.Transactions
import Pheidippides.Postgres.Theorems.Transactions
import Pheidippides.Postgres.Refinement
import Pheidippides.Postgres.Theorems.Refinement

import Webserv.WhileLoop
import Webserv.Bytes
import Webserv.OrdMap
import Webserv.ChunkStream
import Webserv.Config
import Webserv.RequestParser
import Webserv.ChunkedBody
import Webserv.ChunkCuts
import Webserv.RequestHead
import Webserv.RequestLine
import Webserv.PathQuery
import Webserv.PercentCoding
import Webserv.ParseTermination
import Webserv.RequestUri
import Webserv.LocationMatch
import Webserv.RequestFrame
import Webserv.ParseErrors
import Webserv.Heap
import Webserv.System
import Webserv.ResponseBuilder
import Webserv.Program
import Webserv.Delivery
import Webserv.CgiHandler
import Webserv.ResponseFrame
import Webserv.Cookies
import Webserv.ClientServer
import Webserv.MethodRules
import Webserv.ConnectionSteps
import Webserv.ConnectionRuns
import Webserv.ResponseOrder
import Webserv.CgiAuthorisation
import Webserv.PendingCgi
import Webserv.NullConfig
import Webserv.ErrorAnswers
import Webserv.Server
import Webserv.SlotReuse
import Webserv.ContentLength
import Webserv.BodyLimit
import Webserv.CrlfLines
import Webserv.HeaderLines
import Webserv.HeaderGrammar
import Webserv.HeadEnd
import Webserv.ChunkedCoding
import Webserv.SizeLines
import Webserv.BodySegments
import Webserv.CompleteRequest
import Webserv.HandlerFrame
import Webserv.CgiPipe
import Webserv.CgiResources
import Webserv.Inactivity
import Webserv.IoMultiplexer
import Webserv.ListenerTable
import Webserv.Shutdown
import Webserv.EventLoop
import Webserv.Multipart
import Webserv.RouteReplies
import Webserv.Uploads
import Webserv.FormData
import Webserv.StatusLine
import Webserv.CgiOutput
import Webserv.MessageHead
import Webserv.ResponseHead
import Webserv.HeaderInjection
import Webserv.Links
import Webserv.UriNormal
import Webserv.SelfDelimiting
import Webserv.Pipelining
import Webserv.ExpectContinue
import Webserv.ConnectionField
import Webserv.RecursiveDescent
import Webserv.Tokenize
import Webserv.SanitizeInput
import Webserv.ConfigWords
import Webserv.TextPlaces
import Webserv.BodySize
import Webserv.ListenDirective
import Webserv.ConfigParser
import Webserv.ConfigGrammar
import Webserv.ConfigAccepts
import Webserv.Redirection
import Webserv.KeptUploads
import Webserv.ScriptSource
import Webserv.BodyCounters
import Webserv.Deletion
import Webserv.GetContent
import Webserv.Conversation
import Webserv.RequestText
import Webserv.SequentialService
import Webserv.SequentialRuns
import Webserv.ServerConversations
import Webserv.FileAccess
import Webserv.Confinement
import Webserv.Progress
import Webserv.EventualAnswers
import Webserv.StartUp

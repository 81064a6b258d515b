import FoxyServer.Library.Champion
import FoxyServer.Config.RoundTrip
import FoxyServer.Handlers.AuthPath
import FoxyServer.Handlers.Accounts
import FoxyServer.Session.BackToBack
import FoxyServer.Handlers.Proxy
import FoxyServer.RequestParser.Clean
import FoxyServer.Handlers.Forwarding
import FoxyServer.Session.Callbacks
import FoxyServer.Session.Heads
import FoxyServer.RequestParser.ReadBack
import FoxyServer.Handlers.Echo
import FoxyServer.Handlers.Answers
import FoxyServer.Handlers.Reading
import FoxyServer.Handlers.Redirects
import FoxyServer.Handlers.Requests
import FoxyServer.Session.Framing
import FoxyServer.Session.Lifetime
import FoxyServer.Library.Tally
import FoxyServer.Session.Counting
import FoxyServer.Config.Directives
import FoxyServer.Server.Safety
import FoxyServer.Server.Fallback
import FoxyServer.RequestParser.Calls
import FoxyServer.RequestParser.Body
import FoxyServer.RequestParser.HeadLines
import FoxyServer.RequestParser.HeaderValues
import FoxyServer.Handlers.Registries
import FoxyServer.Handlers.Encoding
import FoxyServer.Cookie
import FoxyServer.Handlers.Cookies
import FoxyServer.Config.Spelling
import FoxyServer.Config.Layout
import FoxyServer.Config.Coverage
import FoxyServer.Config.Spacing
import FoxyServer.Config.Comments
import FoxyServer.Config.Underflow
import FoxyServer.Server.Listens
import FoxyServer.Server.Ports
import FoxyServer.Server.Threads
import FoxyServer.Handlers.Optimum
import FoxyServer.Handlers.Translation
import FoxyServer.Handlers.Targets
import FoxyServer.Handlers.Insertions
import FoxyServer.Handlers.HeaderLines
import FoxyServer.Handlers.RedirectTargets
import FoxyServer.RequestParser.Names
import FoxyServer.Handlers.RedirectHosts
import FoxyServer.Handlers.PercentEncoding
import FoxyServer.Handlers.Forms
import FoxyServer.Session.Closing
import FoxyServer.Library.Lockstep
import FoxyServer.RequestParser.NameCase
import FoxyServer.Session.NameCase
import FoxyServer.Library.Markup
import FoxyServer.Session.StatusPage
import FoxyServer.Config.Origins
import FoxyServer.Server.Arguments
import FoxyServer.Jwt.Base
import FoxyServer.Jwt.Json
import FoxyServer.Library.Decimals
import FoxyServer.Jwt.JsonRoundTrip
import FoxyServer.Jwt.Token
import FoxyServer.Jwt.Validity
import FoxyServer.Session.Authentication
import FoxyServer.Library.Isolation
import FoxyServer.Session.Isolation
import FoxyServer.Server.Accepting
import FoxyServer.Server.Restarts
import FoxyServer.Library.Framing
import FoxyServer.Session.Reply
import FoxyServer.Session.Upstreams
import FoxyServer.Session.Replies
import FoxyServer.Session.Fetching
import FoxyServer.Jwt.Spellings
import FoxyServer.Server.Sites
import FoxyServer.Server.Hosting
import FoxyServer.Session.Redirecting
import FoxyServer.Session.Exceptions

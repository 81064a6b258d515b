import FoxyServer.Config.Basic
import FoxyServer.DataCollector
import FoxyServer.Handlers.Database
import FoxyServer.Handlers.Static
import FoxyServer.Http.Request

/-!
This module contains the handler for signup and login.
-/

namespace Foxy

/--
The code outside the repository that a login request runs into: the files, bcrypt, SQLite and the signer
of the cookies.
-/
structure LoginEnv where
  files : FileSystem
  generateHash : Bytes → Bytes
  checkpw : Bytes → Bytes → Int
  sqlite : Sqlite
  generateCookie : Bytes → Bytes

namespace Password

def validatePassword (checkpw : Bytes → Bytes → Int) (password hash : Bytes) : Bool :=
  checkpw (Bytes.cStr password) (Bytes.cStr hash) = 0

def checkPassword (checkpw : Bytes → Bytes → Int) (password hash : Bytes) : Bool :=
  validatePassword checkpw password hash

end Password

structure LoginRequestHandler where
  root : Bytes
  path : Bytes
  deriving DecidableEq

namespace LoginRequestHandler

def init (locationPath : Bytes) (config : NginxConfig) (collector : DataCollector)
    : Outcome (Option LoginRequestHandler × DataCollector) := do
  let collector := collector.addHandler locationPath (Bytes.lit "Login Request Handler")
  let root ← StaticRequestHandler.lastOperand (Bytes.lit "root") [] config
  let (rootIsQuoted, root) ← utility.isQuoted root
  if !rootIsQuoted then
    return (none, collector)
  return (some { root, path := locationPath }, collector)

def pageFile (handler : LoginRequestHandler) (files : FileSystem) (file : Bytes) : Option Bytes :=
  files (Bytes.cStr (handler.root ++ file))

def prepareHtmlResponse (handler : LoginRequestHandler) (files : FileSystem) (file : Bytes)
    : Response :=
  match handler.pageFile files file with
  | none => ResponseGenerator.stockResponse .notFound
  | some body =>
    let headers := OrdMap.empty
      |>.set (Bytes.lit "Content-Length") (Bytes.toDecimal body.length)
      |>.set (Bytes.lit "Content-Type") (Bytes.lit "text/html")
    { code := .ok, headers, body }

/-! ## The fields of a form -/

def toLower (c : UInt8) : UInt8 :=
  if 'A'.toUInt8 ≤ c ∧ c ≤ 'Z'.toUInt8 then c + 32 else c

/--
The first match of `key(.*?)&`, or of `key(.*?)(&|$)` if `endsAtEnd`, in any case of letters; the dot does
not match a line terminator.
-/
def findField (key : Bytes) (endsAtEnd : Bool) : Bytes → Option Bytes
  | [] => none
  | c :: text =>
    let value := ((c :: text).drop key.length).takeWhile
      (fun c => c ≠ '&'.toUInt8 ∧ c ≠ '\n'.toUInt8 ∧ c ≠ '\r'.toUInt8)
    let after := ((c :: text).drop (key.length + value.length)).head?
    if ((c :: text).take key.length).map toLower = key
        ∧ (after = some '&'.toUInt8 ∨ endsAtEnd ∧ after = none) then
      some value
    else
      findField key endsAtEnd text

def extractUsername (text : Bytes) : Bytes :=
  (findField (Bytes.lit "username=") false text).getD []

def extractPassword (text : Bytes) : Bytes :=
  (findField (Bytes.lit "password=") true text).getD []

example : extractUsername (Bytes.lit "UserName=foxy&password=x") = Bytes.lit "foxy" := by decide +kernel
example : extractPassword (Bytes.lit "username=foxy&password=x") = Bytes.lit "x" := by decide +kernel
example : extractUsername (Bytes.lit "bogus") = [] := by decide +kernel

/-! ## Requests -/

def comparePassword (env : LoginEnv) (table : AuthTable) (username password : Bytes) : Bool :=
  let hashedPassword := (database.dbSelectPass env.sqlite table username []).2
  Password.checkPassword env.checkpw password hashedPassword

def signup (env : LoginEnv) (table : AuthTable) (username password : Bytes) : Bool × AuthTable :=
  let (rc, table) := database.dbInsert env.sqlite env.generateHash table username password
  (rc ≠ Sqlite.constraint, table)

def handleRequest (handler : LoginRequestHandler) (env : LoginEnv) (table : AuthTable)
    (request : Request) : Response × AuthTable :=
  match request.method with
  | .get =>
    if request.uri.contains (Bytes.lit "signup") then
      (handler.prepareHtmlResponse env.files (Bytes.lit "signup/index.html"), table)
    else
      (handler.prepareHtmlResponse env.files (Bytes.lit "index.html"), table)
  | .post =>
    let username := extractUsername request.body
    let password := extractPassword request.body
    if request.uri.contains (Bytes.lit "signup") then
      let (validSignup, table) := signup env table username password
      if username ≠ [] ∧ password ≠ [] ∧ validSignup then
        (handler.prepareHtmlResponse env.files (Bytes.lit "signup/signup_success.html"), table)
      else
        (handler.prepareHtmlResponse env.files (Bytes.lit "signup/signup_failure.html"), table)
    else
      let isValidPassword := username ≠ [] ∧ comparePassword env table username password
      if isValidPassword then
        let cookie := env.generateCookie username
        let response := handler.prepareHtmlResponse env.files (Bytes.lit "login_success.html")
        let headers := response.headers.set (Bytes.lit "Set-Cookie")
          (Bytes.lit "jwt=" ++ cookie ++ Bytes.lit "; Path=/")
        ({ response with headers }, table)
      else
        (handler.prepareHtmlResponse env.files (Bytes.lit "login_failure.html"), table)
  | _ => (ResponseGenerator.stockResponse .badRequest, table)

end LoginRequestHandler

end Foxy

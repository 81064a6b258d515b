import FoxyServer.Config.Basic
import FoxyServer.DataCollector
import FoxyServer.Http.MimeTypes
import FoxyServer.Http.Request
import FoxyServer.Utility

/-!
This module contains the handler that serves files from a directory.
-/

namespace Foxy

abbrev FileSystem := Bytes → Option Bytes

/--
Serves the files under `root`; the default constructor leaves all three strings empty.
-/
structure StaticRequestHandler where
  root : Bytes := []
  path : Bytes := []
  authPath : Bytes := []
  deriving DecidableEq

namespace StaticRequestHandler

def lastOperand (keyword : Bytes) (value : Bytes) : NginxConfig → Outcome Bytes
  | [] => .ok value
  | s :: statements => do
    let found ← operandOf keyword s.tokens
    lastOperand keyword (found.getD value) statements

def init (locationPath : Bytes) (config : NginxConfig) (collector : DataCollector)
    : Outcome (Option StaticRequestHandler × DataCollector) := do
  let collector := collector.addHandler locationPath (Bytes.lit "Static Request Handler")
  let root ← lastOperand (Bytes.lit "root") [] config
  let auth ← lastOperand (Bytes.lit "auth") [] config
  let (rootIsQuoted, root) ← utility.isQuoted root
  if !rootIsQuoted then
    return (none, collector)
  let (authIsQuoted, auth) ← utility.isQuoted auth
  let auth := if !authIsQuoted then [] else auth
  return (some { root, path := locationPath, authPath := auth }, collector)

def jwtCookie (cookieString : Bytes) : Bytes :=
  let cookies := cookieString.splitOnP (fun c => c = ';'.toUInt8 || c = ' '.toUInt8)
  match cookies.find? (fun cookie => (Bytes.lit "jwt=").isPrefixOf cookie) with
  | some cookie => cookie.drop 4
  | none => []

def checkCookie (verifyCookie : Bytes → Bool) (cookieString : Bytes) : Bool :=
  verifyCookie (jwtCookie cookieString)

def prepareRedirect (handler : StaticRequestHandler) : Response :=
  let body := []
  let headers := OrdMap.empty
    |>.set (Bytes.lit "Content-Length") (Bytes.toDecimal body.length)
    |>.set (Bytes.lit "Content-Type") (Bytes.lit "text/plain")
    |>.set (Bytes.lit "Connection") (Bytes.lit "close")
    |>.set (Bytes.lit "Location") handler.authPath
  { code := .movedTemporarily, headers, body }

/-! ## Percent decoding -/

def hexDigit? (c : UInt8) : Option Nat :=
  if '0'.toUInt8 ≤ c ∧ c ≤ '9'.toUInt8 then
    some (c.toNat - 48)
  else if 'a'.toUInt8 ≤ c ∧ c ≤ 'f'.toUInt8 then
    some (c.toNat - 87)
  else if 'A'.toUInt8 ≤ c ∧ c ≤ 'F'.toUInt8 then
    some (c.toNat - 55)
  else
    none

/--
`is >> std::hex >> value` on a stream of at most two bytes: white space, a sign, a `0x` that has to be
followed by a digit, and digits up to the first byte that is none. Two bytes cannot overflow an `int`.
-/
def readHex (s : Bytes) : Option Int :=
  let s := s.dropWhile Bytes.isSpace
  let negative := s.head? = some '-'.toUInt8
  let s := if negative ∨ s.head? = some '+'.toUInt8 then s.tail else s
  let s :=
    match s with
    | c :: x :: rest =>
      if c = '0'.toUInt8 ∧ (x = 'x'.toUInt8 ∨ x = 'X'.toUInt8) then rest else s
    | _ => s
  let digits := (s.takeWhile (fun c => (hexDigit? c).isSome)).filterMap hexDigit?
  let value : Int := (digits.foldl (fun n d => 16 * n + d) 0 : Nat)
  if digits = [] then none else some (if negative then -value else value)

def toChar (value : Int) : UInt8 :=
  UInt8.ofNat (value % 256).toNat

def urlDecode : Bytes → Option Bytes
  | [] => some []
  | c :: rest =>
    if c = '%'.toUInt8 then
      match rest with
      | a :: b :: rest => do
        let value ← readHex [a, b]
        let out ← urlDecode rest
        return toChar value :: out
      | _ => none
    else if c = '+'.toUInt8 then
      (urlDecode rest).map (' '.toUInt8 :: ·)
    else
      (urlDecode rest).map (c :: ·)

example : urlDecode (Bytes.lit "/a+b%2Fc") = some (Bytes.lit "/a b/c") := by decide +kernel
example : urlDecode (Bytes.lit "/index%GG.html") = none := by decide +kernel
example : urlDecode (Bytes.lit "%-1%204%4g") = some [255, 32, 52, 4] := by decide +kernel

/-! ## From the uri to the path of a file -/

/-- The decoded path, or nothing if the uri is refused. -/
def checkRequestPath (requestUri : Bytes) : Option Bytes := do
  let requestPath ← urlDecode requestUri
  if requestPath.head? ≠ some '/'.toUInt8 ∨ requestPath.contains (Bytes.lit "..") then
    none
  else if requestPath.getLast? = some '/'.toUInt8 then
    some (requestPath ++ Bytes.lit "index.html")
  else
    some requestPath

def replacePath (handler : StaticRequestHandler) (requestPath : Bytes) : Option Bytes :=
  match Bytes.find handler.path requestPath with
  | none => none
  | some startPos =>
    some (requestPath.take startPos ++ handler.root
      ++ requestPath.drop (startPos + handler.path.length))

def lastIndexOf (c : UInt8) (s : Bytes) : Option Nat :=
  (s.reverse.findIdx? (· = c)).map (s.length - 1 - ·)

def getExtension (requestPath : Bytes) : Bytes :=
  match lastIndexOf '.'.toUInt8 requestPath, lastIndexOf '/'.toUInt8 requestPath with
  | some lastDotPos, some lastSlashPos =>
    if lastDotPos > lastSlashPos then requestPath.drop (lastDotPos + 1) else []
  -- without a slash its position is the largest number there is
  | _, _ => []

/--
The response, and the path of the file that was opened on the way to it, whether or not there is one.
-/
def handleRequest (handler : StaticRequestHandler) (files : FileSystem) (verifyCookie : Bytes → Bool)
    (request : Request) : Response × Option Bytes :=
  let cookieString := (request.headers.find? (Bytes.lit "Cookie")).getD []
  if handler.authPath.length ≠ 0 ∧ !checkCookie verifyCookie cookieString then
    (handler.prepareRedirect, none)
  else
    match checkRequestPath request.uri with
    | none => (ResponseGenerator.stockResponse .badRequest, none)
    | some requestPath =>
      let requestPath := if requestPath = [] then Bytes.lit "/" else requestPath
      match handler.replacePath requestPath with
      | none => (ResponseGenerator.stockResponse .internalServerError, none)
      | some fullPath =>
        let opened := Bytes.cStr fullPath
        match files opened with
        | none => (ResponseGenerator.stockResponse .notFound, some opened)
        | some body =>
          let headers := OrdMap.empty
            |>.set (Bytes.lit "Content-Length") (Bytes.toDecimal body.length)
            |>.set (Bytes.lit "Content-Type") (mimeTypes.extensionToType (getExtension fullPath))
          ({ code := .ok, headers, body }, some opened)

end StaticRequestHandler

end Foxy

import FoxyServer.Http.Request

/-!
This module contains the request parser: a state machine that consumes one byte at a time, and
`parseData`, which runs it over a buffer and cuts the body out of the same buffer.
-/

namespace Foxy

inductive RequestParser.State where
  | methodStart
  | method
  | uri
  | httpVersionH
  | httpVersionT1
  | httpVersionT2
  | httpVersionP
  | httpVersionSlash
  | httpVersionMajorStart
  | httpVersionMajor
  | httpVersionMinorStart
  | httpVersionMinor
  | expectingNewline1
  | headerLineStart
  | headerLws
  | headerName
  | spaceBeforeHeaderValue
  | headerValue
  | expectingNewline2
  | expectingNewline3
  deriving DecidableEq, Repr

inductive RequestParser.ResultType where
  | good
  | bad
  | indeterminate
  | missingData
  deriving DecidableEq, Repr

/--
Parser for incoming requests. The default values are those the constructor sets.
-/
structure RequestParser where
  state : RequestParser.State := .methodStart
  methodHelper : Bytes := []
  headerHelper : Bytes := []
  nCharParsed : Int := 0
  deriving DecidableEq

namespace RequestParser

def charToInt (c : UInt8) : Int :=
  if c.toNat < 128 then c.toNat else c.toNat - 256

/--
`++` on an `int`. Past the largest value it wraps around, as the hardware does.
-/
def intSucc (n : Int) : Int :=
  if n = 2147483647 then -2147483648 else n + 1

def isChar (c : Int) : Bool :=
  0 ≤ c && c ≤ 127

def isCtl (c : Int) : Bool :=
  (0 ≤ c && c ≤ 31) || c = 127

def isTspecial (c : Int) : Bool :=
  (Bytes.lit "()<>@,;:\\\"/[]?=\x7b\x7d \t").any (fun t => c = t.toNat)

def isDigit (c : Int) : Bool :=
  48 ≤ c && c ≤ 57

def reset (parser : RequestParser) : RequestParser :=
  { parser with methodHelper := [], headerHelper := [], state := .methodStart }

def getCharAmount (parser : RequestParser) : Int :=
  parser.nCharParsed

def consume (parser : RequestParser) (req : Request) (input : UInt8)
    : ResultType × RequestParser × Request :=
  let c := charToInt input
  match parser.state with
  | .methodStart =>
    if !isChar c || isCtl c || isTspecial c then
      (.bad, parser, req)
    else
      (.indeterminate,
        { parser with state := .method, methodHelper := parser.methodHelper ++ [input] }, req)
  | .method =>
    if input = ' '.toUInt8 then
      let method : Request.MethodEnum :=
        if parser.methodHelper = Bytes.lit "POST" then
          .post
        else if parser.methodHelper = Bytes.lit "PUT" then
          .put
        else if parser.methodHelper = Bytes.lit "GET" then
          .get
        else
          .unknown
      (.indeterminate, { parser with state := .uri }, { req with method })
    else if !isChar c || isCtl c || isTspecial c then
      (.bad, parser, req)
    else
      (.indeterminate, { parser with methodHelper := parser.methodHelper ++ [input] }, req)
  | .uri =>
    if input = ' '.toUInt8 then
      (.indeterminate, { parser with state := .httpVersionH }, req)
    else if isCtl c then
      (.bad, parser, req)
    else
      (.indeterminate, parser, { req with uri := req.uri ++ [input] })
  | .httpVersionH => expect 'H'.toUInt8 .httpVersionT1
  | .httpVersionT1 => expect 'T'.toUInt8 .httpVersionT2
  | .httpVersionT2 => expect 'T'.toUInt8 .httpVersionP
  | .httpVersionP => expect 'P'.toUInt8 .httpVersionSlash
  | .httpVersionSlash =>
    if input = '/'.toUInt8 then
      (.indeterminate, { parser with state := .httpVersionMajorStart }, { req with httpVersion := [] })
    else
      (.bad, parser, req)
  | .httpVersionMajorStart =>
    if isDigit c then
      (.indeterminate, { parser with state := .httpVersionMajor },
        { req with httpVersion := req.httpVersion ++ [input] })
    else
      (.bad, parser, req)
  | .httpVersionMajor =>
    if input = '.'.toUInt8 then
      (.indeterminate, { parser with state := .httpVersionMinorStart },
        { req with httpVersion := req.httpVersion ++ ['.'.toUInt8] })
    else if isDigit c then
      (.indeterminate, parser, { req with httpVersion := req.httpVersion ++ [input] })
    else
      (.bad, parser, req)
  | .httpVersionMinorStart =>
    if isDigit c then
      (.indeterminate, { parser with state := .httpVersionMinor },
        { req with httpVersion := req.httpVersion ++ [input] })
    else
      (.bad, parser, req)
  | .httpVersionMinor =>
    if input = '\r'.toUInt8 then
      (.indeterminate, { parser with state := .expectingNewline1 }, req)
    else if isDigit c then
      (.indeterminate, parser, { req with httpVersion := req.httpVersion ++ [input] })
    else
      (.bad, parser, req)
  | .expectingNewline1 => expect '\n'.toUInt8 .headerLineStart
  | .headerLineStart =>
    if input = '\r'.toUInt8 then
      (.indeterminate, { parser with state := .expectingNewline3 }, req)
    else if !req.headers.isEmpty && (input = ' '.toUInt8 || input = '\t'.toUInt8) then
      (.indeterminate, { parser with state := .headerLws }, req)
    else if !isChar c || isCtl c || isTspecial c then
      (.bad, parser, req)
    else
      (.indeterminate,
        { parser with state := .headerName, headerHelper := parser.headerHelper ++ [input] }, req)
  | .headerLws =>
    if input = '\r'.toUInt8 then
      (.indeterminate, { parser with state := .expectingNewline2 }, req)
    else if input = ' '.toUInt8 || input = '\t'.toUInt8 then
      (.indeterminate, parser, req)
    else if isCtl c then
      (.bad, parser, req)
    else
      -- the byte goes to the (empty) header name, not to the value being continued
      (.indeterminate,
        { parser with state := .headerValue, headerHelper := parser.headerHelper ++ [input] }, req)
  | .headerName =>
    if input = ':'.toUInt8 then
      (.indeterminate, { parser with state := .spaceBeforeHeaderValue }, req)
    else if !isChar c || isCtl c || isTspecial c then
      (.bad, parser, req)
    else
      (.indeterminate, { parser with headerHelper := parser.headerHelper ++ [input] }, req)
  | .spaceBeforeHeaderValue =>
    if input = ' '.toUInt8 then
      (.indeterminate, { parser with state := .headerValue },
        { req with headers := req.headers.insert parser.headerHelper [] })
    else
      (.bad, parser, req)
  | .headerValue =>
    if input = '\r'.toUInt8 then
      (.indeterminate, { parser with state := .expectingNewline2, headerHelper := [] }, req)
    else if isCtl c then
      (.bad, parser, req)
    else
      let headers := req.headers.alter parser.headerHelper (fun value => value.getD [] ++ [input])
      (.indeterminate, parser, { req with headers })
  | .expectingNewline2 => expect '\n'.toUInt8 .headerLineStart
  | .expectingNewline3 =>
    if input = '\n'.toUInt8 then
      (.good, parser, req)
    else
      (.bad, parser, req)
where
  expect (char : UInt8) (next : State) : ResultType × RequestParser × Request :=
    if input = char then
      (.indeterminate, { parser with state := next }, req)
    else
      (.bad, parser, req)

/--
What `parse` leaves: the result, the input from the returned iterator on, the parser and the request.
-/
structure Parsed where
  result : ResultType
  rest : Bytes
  parser : RequestParser
  request : Request
  deriving DecidableEq

def parse (parser : RequestParser) (req : Request) : Bytes → Parsed
  | [] => ⟨.indeterminate, [], parser, req⟩
  | input :: rest =>
    let (result, parser, req) := parser.consume req input
    let parser := { parser with nCharParsed := intSucc parser.nCharParsed }
    if result = .good ∨ result = .bad then
      ⟨result, rest, parser, req⟩
    else
      parse parser req rest

/--
`data` is the memory from the start of the buffer on. Only the first `bytesTransferred` bytes are
parsed, but the body is cut from the end of the NUL terminated string that starts there.
-/
def parseData (parser : RequestParser) (request : Request) (data : Bytes) (bytesTransferred : Nat)
    : Outcome (ResultType × RequestParser × Request) := do
  let ⟨result, _, parser, request⟩ := parser.parse request (data.take bytesTransferred)
  let charAmount := parser.getCharAmount
  let (contentLength, request) ← utility.getContentLength request
  if contentLength > 0 ∧ charAmount = Bytes.strlen data then
    return (.missingData, parser, request)
  else
    let dataHelper := Bytes.cStr data
    let body ← Bytes.substr dataHelper (dataHelper.length - contentLength)
    return (result, parser, { request with body })

example :
    (parseData {} {} (Bytes.lit "POST / HTTP/1.1\r\nContent-Length: 2\r\n\r\nab") 40).Returns := by
  decide

end RequestParser

end Foxy

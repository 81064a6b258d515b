import FoxyServer.Cookie
import FoxyServer.Jwt.Base
import FoxyServer.Jwt.Json

/-!
This module contains how jwt-cpp signs, decodes and verifies a token.
-/

namespace Foxy

namespace jwt

open picojson (Value)

abbrev Claims (δ : Type) : Type :=
  OrdMap Bytes (Value δ)

structure Decoded (δ : Type) where
  headerClaims : Claims δ
  payloadClaims : Claims δ
  headerBase64 : Bytes
  payloadBase64 : Bytes
  signature : Bytes

def dot : UInt8 :=
  '.'.toUInt8

/-! ## Signing -/

namespace claim

variable {δ : Type}

def ofDate (date : Int) : Value δ :=
  .int64 (Int64.ofInt (date.tdiv 1000000000))

/-- Nanoseconds are counted in 64 bits, and the multiplication wraps around. -/
def asDate : Value δ → Option Int
  | .int64 i => some ((i.toInt * 1000000000).bmod (2 ^ 64))
  | _ => none

def asString : Value δ → Option Bytes
  | .string s => some s
  | _ => none

end claim

def encode (data : Bytes) : Bytes :=
  base.trim alphabet.base64url (base.encode alphabet.base64url data)

-- `hmac` is what OpenSSL computes of a secret and a text
variable (hmac : Bytes → Bytes → Bytes) (doubles : Doubles)

namespace hs256

def name : Bytes :=
  Bytes.lit "HS256"

def sign (algorithm : Jwt.Hs256) (data : Bytes) : Bytes :=
  hmac algorithm.secret data

def verify (algorithm : Jwt.Hs256) (data signature : Bytes) : Bool :=
  let res := sign hmac algorithm data
  (res.zip signature).all (fun bytes => bytes.1 = bytes.2) && res.length = signature.length

end hs256

namespace builder

variable {δ : Type}

def headerClaims : Claims δ :=
  OrdMap.empty.set (Bytes.lit "alg") (.string hs256.name)

def payloadClaims (builder : Jwt.Builder) : Claims δ :=
  (((OrdMap.empty.set (Bytes.lit "iss") (.string builder.issuer)).set (Bytes.lit "iat")
    (claim.ofDate builder.issuedAt)).set (Bytes.lit "exp") (claim.ofDate builder.expiresAt)).setAll
      ((Jwt.Builder.payloadClaims builder).map (fun (name, value) => (name, .string value)))

def text (builder : Jwt.Builder) : Bytes :=
  encode (picojson.serialize doubles (.object headerClaims.entries)) ++ dot
    :: encode (picojson.serialize doubles (.object (payloadClaims builder).entries))

def sign (builder : Jwt.Builder) (algorithm : Jwt.Hs256) : Bytes :=
  let token := text doubles builder
  token ++ dot :: encode (hs256.sign hmac algorithm token)

end builder

/-! ## Decoding -/

def parseClaims (str : Bytes) : Option (Claims doubles.Double) :=
  match picojson.parse doubles str with
  | some (.object members) => some (OrdMap.empty.insertEach members)
  | _ => none

def decodePart (part : Bytes) : Option Bytes :=
  base.decode alphabet.base64url (base.pad alphabet.base64url part)

def decode (token : Bytes) : Option (Decoded doubles.Double) := do
  let hdrEnd ← Bytes.find [dot] token
  let payloadLength ← Bytes.find [dot] (token.drop (hdrEnd + 1))
  let headerBase64 := token.take hdrEnd
  let payloadBase64 := (token.drop (hdrEnd + 1)).take payloadLength
  let header ← decodePart headerBase64
  let payload ← decodePart payloadBase64
  let signature ← decodePart ((token.drop (hdrEnd + 1)).drop (payloadLength + 1))
  let headerClaims ← parseClaims doubles header
  let payloadClaims ← parseClaims doubles payload
  return { headerClaims, payloadClaims, headerBase64, payloadBase64, signature }

/-! ## Verifying -/

namespace verifier

variable {δ : Type}

def checkDate (claims : Claims δ) (name : Bytes) (check : Int → Bool) : Bool :=
  match claims.find? name with
  | none => true
  | some date =>
    match claim.asDate date with
    | none => false
    | some date => check date

def verify (verifier : Jwt.Verifier) (time : Int) (jwt : Decoded δ) : Bool :=
  let data := jwt.headerBase64 ++ dot :: jwt.payloadBase64
  match (jwt.headerClaims.find? (Bytes.lit "alg")).bind claim.asString with
  | none => false
  | some algo =>
    algo = hs256.name && hs256.verify hmac verifier.algorithm data jwt.signature
      && checkDate jwt.payloadClaims (Bytes.lit "exp") (fun exp => !(time > exp))
      && checkDate jwt.payloadClaims (Bytes.lit "iat") (fun iat => !(time < iat))
      && checkDate jwt.payloadClaims (Bytes.lit "nbf") (fun nbf => !(time < nbf))
      && (jwt.payloadClaims.find? (Bytes.lit "iss")).bind claim.asString = some verifier.issuer

end verifier

def library : Jwt where
  Decoded := Decoded doubles.Double
  sign := builder.sign hmac doubles
  decode := decode doubles
  verify := verifier.verify hmac

end jwt

end Foxy

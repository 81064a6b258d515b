import FoxyServer.Library.Bytes

/-!
This module contains the cookie that a login sets: a token that jwt-cpp signs and verifies.
-/

namespace Foxy

namespace Jwt

structure Hs256 where
  secret : Bytes
  deriving DecidableEq

/-- What `jwt::create` has collected when it is asked to sign. Times are in ticks of the system clock. -/
structure Builder where
  issuer : Bytes
  issuedAt : Int
  expiresAt : Int
  payloadClaims : List (Bytes × Bytes)
  deriving DecidableEq

structure Verifier where
  algorithm : Hs256
  issuer : Bytes
  deriving DecidableEq

/-- A date goes into a token in whole seconds; the system clock ticks in nanoseconds. -/
def dateClaim (date : Int) : Int :=
  date.tdiv 1000000000 * 1000000000

def Unexpired (builder : Builder) (now : Int) : Prop :=
  dateClaim builder.issuedAt ≤ now ∧ now ≤ dateClaim builder.expiresAt

instance (builder : Builder) (now : Int) : Decidable (Unexpired builder now) :=
  inferInstanceAs (Decidable (_ ∧ _))

end Jwt

/--
jwt-cpp. Decoding yields nothing and verifying is false where they throw.
-/
structure Jwt where
  Decoded : Type
  sign : Jwt.Builder → Jwt.Hs256 → Bytes
  decode : Bytes → Option Decoded
  verify : Jwt.Verifier → Int → Decoded → Bool

/--
What the server relies on for a token of its own: base64url and dots, and accepted as long as it has not
expired by a verifier for the algorithm and the issuer.
-/
structure Jwt.Honours (jwt : Jwt) (builder : Jwt.Builder) (algorithm : Jwt.Hs256) : Prop where
  separators : ∀ b ∈ jwt.sign builder algorithm, b ≠ ';'.toUInt8 ∧ b ≠ ' '.toUInt8
  accepts : ∀ now, Jwt.Unexpired builder now →
    ∃ decoded, jwt.decode (jwt.sign builder algorithm) = some decoded
      ∧ jwt.verify ⟨algorithm, builder.issuer⟩ now decoded = true

namespace Cookie

def timeToLive : Int := 2 * 60 * 60

def secret : Bytes := Bytes.lit "1uXX4cW#00&xCZPY@IQ*Lf#cAYj#45q~"

def verifier : Jwt.Verifier := ⟨⟨secret⟩, Bytes.lit "foxy-4"⟩

def builder (issued now : Int) (username : Bytes) : Jwt.Builder where
  issuer := Bytes.lit "foxy-4"
  issuedAt := issued
  expiresAt := now + timeToLive * 1000000000
  payloadClaims := [(Bytes.lit "username", username)]

def generateCookie (jwt : Jwt) (issued now : Int) (username : Bytes) : Bytes :=
  jwt.sign (builder issued now username) ⟨secret⟩

def verifyCookie (jwt : Jwt) (now : Int) (cookie : Bytes) : Bool :=
  match jwt.decode cookie with
  | none => false
  | some decoded => jwt.verify verifier now decoded

theorem verifyCookie_generateCookie {jwt : Jwt} {issued created now : Int} {username : Bytes}
    (h : jwt.Honours (builder issued created username) ⟨secret⟩)
    (hnow : Jwt.Unexpired (builder issued created username) now)
    : verifyCookie jwt now (generateCookie jwt issued created username) = true := by
  rcases h.accepts now hnow with ⟨decoded, hdecode, hverify⟩
  rw [verifyCookie, generateCookie, hdecode]
  exact hverify

end Cookie

end Foxy

import ConferenceLedger.Digest.Hmac
import ConferenceLedger.Ledger.Operation
import ConferenceLedger.Rsa.PublicKey
import ConferenceLedger.Token.Claims
import ConferenceLedger.Token.Header

/-!
# Authentication

A token has three parts between dots: a header, the claims and a signature of both. It is
accepted if the signature is right under the configured key, the claims are those of an
attendee, the token has not expired, and the issuer and the audience, where it names them,
are the configured ones. A configured RSA key is used before a configured secret.
-/

namespace ConferenceLedger

/-- What tokens are accepted. -/
structure AuthConfig where
  /-- The issuer that a token may name, unless any is accepted. -/
  issuer : Option String
  /-- The audience that a token may name, unless any is accepted. -/
  audience : Option String
  /-- An RSA key in armored text. -/
  publicKeyPem : Option String
  /-- A shared secret. -/
  secret : Option String
  /-- Whether expired tokens are accepted. -/
  skipExpiry : Bool
  deriving DecidableEq

/-- What is wrong inside a token or a key. -/
inductive DecodeFault where
  /-- The configured key is none. -/
  | badKey (e : Rsa.KeyError)
  /-- A part is not the JSON value that it should be. -/
  | badJson
  /-- The header names another algorithm. -/
  | wrongAlgorithm
  deriving DecidableEq

/-- The text that reports what is wrong inside a token or a key. -/
def DecodeFault.message : DecodeFault → String
  | badKey e => "invalid public key: " ++ e.message
  | badJson => "JSON error"
  | wrongAlgorithm => "InvalidAlgorithm"

/-- Why a token is not accepted. -/
inductive AuthError where
  /-- There is neither a key nor a secret. -/
  | notConfigured
  /-- The token has not three parts, or one of them is not base 64. -/
  | invalidFormat
  /-- The signature is not one of the token. -/
  | invalidSignature
  /-- The token has expired. -/
  | expired
  /-- The token names another issuer. -/
  | invalidIssuer
  /-- The token names other audiences. -/
  | invalidAudience
  /-- A claim is missing. -/
  | missingClaim (name : String)
  /-- The subject is no ticket id. -/
  | invalidSubject (subject : String)
  /-- Something inside the token or the key is wrong. -/
  | undecodable (fault : DecodeFault)
  deriving DecidableEq

/-- The text that reports why a token is not accepted. -/
def AuthError.message : AuthError → String
  | notConfigured => "authentication not configured"
  | invalidFormat => "invalid token format"
  | invalidSignature => "invalid signature"
  | expired => "token expired"
  | invalidIssuer => "invalid issuer"
  | invalidAudience => "invalid audience"
  | missingClaim name => "missing required claim: " ++ name
  | invalidSubject subject => "subject is not a ticket id: " ++ subject
  | undecodable fault => "decode error: " ++ fault.message

namespace AuthConfig

/-- The configuration that nothing is accepted with. -/
def empty : AuthConfig := ⟨none, none, none, none, false⟩

/-- Whether there is a key or a secret. -/
def isConfigured (c : AuthConfig) : Bool := c.publicKeyPem.isSome || c.secret.isSome

/-- The configuration that environment variables make. -/
def ofEnv (env : String → Option String) : AuthConfig where
  issuer := env "AUTH_ISSUER"
  audience := env "AUTH_AUDIENCE"
  publicKeyPem := env "AUTH_PUBLIC_KEY_PEM"
  secret := env "AUTH_SECRET"
  skipExpiry := env "AUTH_SKIP_EXPIRY" = some "true" || env "AUTH_SKIP_EXPIRY" = some "1"

end AuthConfig

namespace Token

/-- What signatures are checked with. -/
inductive Verifier where
  /-- The bytes of an RSA key. -/
  | rsa (key : Bytes)
  /-- A shared secret. -/
  | shared (secret : Bytes)

/-- The algorithm that a header must name. -/
def Verifier.algorithm : Verifier → Algorithm
  | rsa _ => .rs256
  | shared _ => .hs256

/-- What signatures are checked with under a configuration. -/
def verifierOf (c : AuthConfig) : Except AuthError Verifier :=
  match c.publicKeyPem, c.secret with
  | some pem, _ =>
    match Rsa.keyBytes pem with
    | .ok key => .ok (.rsa key)
    | .error e => .error (.undecodable (.badKey e))
  | none, some secret => .ok (.shared (Bytes.ofText secret))
  | none, none => .error .notConfigured

/-- The text of the signature of a message under a shared secret. -/
def sharedSignature (secret : Bytes) (message : String) : String :=
  Base64.encodeUrl (Hmac.sha256 secret (Bytes.ofText message)).bytes

/-- Whether a signature is one of a message; one that is written otherwise than signatures
are is no answer at all. -/
def Verifier.accepts (v : Verifier) (message signature : String) : Except AuthError Bool :=
  match v with
  | rsa key =>
    match Base64.decodeUrl? signature with
    | none => .error .invalidFormat
    | some b => .ok (Rsa.verify key (Bytes.ofText message) b)
  | shared secret => .ok (sharedSignature secret message = signature)

/-- The three parts of a token: the signature is what follows the last dot, and the claims
are what follows the last dot before it. -/
structure Parts where
  /-- The header. -/
  header : String
  /-- The claims. -/
  payload : String
  /-- The signature. -/
  signature : String

/-- What stands before and after the last dot. -/
def splitLast? (cs : List Char) : Option (List Char × List Char) :=
  let reversed := cs.reverse
  match reversed.dropWhile (· ≠ '.') with
  | [] => none
  | _ :: before => some (before.reverse, (reversed.takeWhile (· ≠ '.')).reverse)

/-- The parts of a token. -/
def Parts.ofText? (token : String) : Option Parts := do
  let (message, signature) ← splitLast? token.toList
  let (header, payload) ← splitLast? message
  return ⟨.ofList header, .ofList payload, .ofList signature⟩

/-- What is signed. -/
def Parts.message (p : Parts) : String := p.header ++ "." ++ p.payload

/-- The JSON value of a part. -/
def decodePart (part : String) : Except AuthError Json :=
  match Base64.decodeUrl? part with
  | none => .error .invalidFormat
  | some b =>
    match Json.ofBytes? b with
    | none => .error (.undecodable .badJson)
    | some j => .ok j

/-- The JSON value of the claims of a token that is signed as configured. -/
def openPayload (v : Verifier) (token : String) : Except AuthError Json := do
  let some parts := Parts.ofText? token | throw .invalidFormat
  let header ← decodePart parts.header
  let some algorithm := headerAlgorithm? header | throw (.undecodable .badJson)
  if algorithm ≠ v.algorithm then throw (.undecodable .wrongAlgorithm)
  if !(← v.accepts parts.message parts.signature) then throw .invalidSignature
  decodePart parts.payload

/-- What a token says about its validity, each only where it is said. -/
structure Validity where
  /-- When the token expires. -/
  expiry : Option Nat
  /-- Who issued the token. -/
  issuer : Option String
  /-- For whom the token was issued. -/
  audience : Option Json

/-- Whether a reader who wants a number gets to the end of a value: he does not look into a
list or an object that is not empty, and stops where something is wrong. -/
def isPassed : Json → Bool
  | .arr items => items.isEmpty
  | .obj fields => fields.isEmpty
  | .unreadable finished => finished
  | _ => true

/-- What claims say about their validity. An object says it by name. A list says it by place,
in five items of which the last is the audience. A time before which a token is not valid is
not looked at, but it must not be given twice or stop the reader. -/
def Validity.ofClaims? (c : Claims) : Json → Option Validity
  | .obj fields =>
    let expiry := if (Json.valuesOf "exp" fields).isEmpty then none else some c.expiry.toNat
    match Json.valuesOf "nbf" fields with
    | [] => some ⟨expiry, c.issuer, c.audience⟩
    | [j] => if isPassed j then some ⟨expiry, c.issuer, c.audience⟩ else none
    | _ => none
  | .arr items => if items.length = 5 then some ⟨none, none, c.issuer.map .str⟩ else none
  | _ => none

/-- Seconds for which a token is still accepted, by its own word, after it has expired. -/
def leeway : Nat := 60

/-- Whether an audience is or contains the expected one; what is neither a string nor a list
of strings is not looked at. -/
def audienceMatches (expected : String) : Json → Bool
  | .str s => s = expected
  | .arr items =>
    match items.mapM Json.text? with
    | some texts => texts.contains expected
    | none => true
  | _ => true

/-- The checks of what a token says about its validity. -/
def Validity.check (v : Validity) (config : AuthConfig) (now : Nat) : Except AuthError Unit :=
  if !config.skipExpiry && v.expiry.any fun t => t + leeway < now then .error .expired
  else if (config.issuer.any fun i => v.issuer.any fun j => j ≠ i) then .error .invalidIssuer
  else if (config.audience.any fun a => v.audience.any fun j => !audienceMatches a j) then
    .error .invalidAudience
  else .ok ()

/-- The checks of the claims themselves: they are those of an attendee, and a token that says
when it expires has not expired, to the second. -/
def checkClaims (c : Claims) (config : AuthConfig) (now : Nat) : Except AuthError Unit :=
  if c.subject = "" then .error (.missingClaim "sub")
  else if !isTicketId c.subject then .error (.invalidSubject c.subject)
  else if !config.skipExpiry && 0 < c.expiry.toNat && c.expiry.toNat < now then .error .expired
  else .ok ()

/-- The claims of a token that is accepted at a time, in seconds. -/
def validate (token : String) (config : AuthConfig) (now : Nat) : Except AuthError Claims := do
  let verifier ← verifierOf config
  let payload ← openPayload verifier token
  let some claims := (ofJson? payload : Option Claims) | throw (.undecodable .badJson)
  let some validity := Validity.ofClaims? claims payload | throw (.undecodable .badJson)
  validity.check config now
  checkClaims claims config now
  return claims

/-- The token that carries a payload, signed with a shared secret. -/
def issue (payload : Json) (secret : Bytes) : String :=
  let header := Json.obj [("typ", .str "JWT"), ("alg", .str "HS256")]
  let part (j : Json) : String := Base64.encodeUrl (Bytes.ofText j.render)
  let message := part header ++ "." ++ part payload
  message ++ "." ++ sharedSignature secret message

end Token

end ConferenceLedger

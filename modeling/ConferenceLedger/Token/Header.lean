import ConferenceLedger.Json.Reader
import ConferenceLedger.Json.Shape

/-!
# Token headers

The header of a token names the algorithm of its signature. It may carry hints about keys,
which are not followed but must have the right form.
-/

namespace ConferenceLedger.Token

/-- The algorithms that a header may name. -/
inductive Algorithm where
  /-- HMAC with SHA-256. -/
  | hs256
  /-- HMAC with SHA-384. -/
  | hs384
  /-- HMAC with SHA-512. -/
  | hs512
  /-- ECDSA with SHA-256. -/
  | es256
  /-- ECDSA with SHA-384. -/
  | es384
  /-- RSA with SHA-256. -/
  | rs256
  /-- RSA with SHA-384. -/
  | rs384
  /-- RSA with SHA-512. -/
  | rs512
  /-- RSA with salt and SHA-256. -/
  | ps256
  /-- RSA with salt and SHA-384. -/
  | ps384
  /-- RSA with salt and SHA-512. -/
  | ps512
  /-- Edwards curves. -/
  | edDsa
  deriving DecidableEq

namespace Algorithm

/-- The algorithms by name. -/
def all : List (String × Algorithm) := [
  ("HS256", hs256), ("HS384", hs384), ("HS512", hs512), ("ES256", es256), ("ES384", es384),
  ("RS256", rs256), ("RS384", rs384), ("RS512", rs512), ("PS256", ps256), ("PS384", ps384),
  ("PS512", ps512), ("EdDSA", edDsa)]

/-- The algorithm that a JSON value names. -/
def ofJson? (j : Json) : Option Algorithm := do
  let index ← Json.bareCase? (all.map (·.1)) .direct j
  let entry ← all[index]?
  return entry.2

end Algorithm

/-- Whether a field may be left out, be `null` or pass a test. -/
def optionalField (fields : List (String × Json)) (ok : Json → Bool) (name : String) : Bool :=
  match Json.slotOf? fields name with
  | some .absent => true
  | some (.given .null) => true
  | some (.given j) => ok j
  | _ => false

/-- Whether a value is a string. -/
def isText (j : Json) : Bool := (Json.text? j).isSome

/-- Whether a value is a list of strings. -/
def isTexts (j : Json) : Bool := (Json.list? Json.text? j).isSome

/-- Whether fields name a kind of key and give its parts as strings. -/
def hasKey (fields : List (String × Json)) (kind : String) (curves : List String)
    (parts : List String) : Bool :=
  let given (ok : Json → Bool) (name : String) : Bool :=
    match Json.valuesOf name fields with
    | [j] => ok j
    | _ => false
  let named (names : List String) (j : Json) : Bool := (Json.bareCase? names .direct j).isSome
  given (named [kind]) "kty" && parts.all (given isText) &&
    (curves.isEmpty || given (named curves) "crv")

/-- Whether a value is a key: an object that describes one of four kinds of keys. -/
def isKey (j : Json) : Bool :=
  match j with
  | .obj fields =>
    let curves := ["P-256", "P-384", "P-521", "Ed25519"]
    let algorithms := ["HS256", "HS384", "HS512", "ES256", "ES384", "RS256", "RS384", "RS512",
      "PS256", "PS384", "PS512", "EdDSA", "RSA1_5", "RSA-OAEP", "RSA-OAEP-256"]
    let named (j : Json) : Bool := (Json.bareCase? algorithms .buffered j).isSome
    Json.bufferable 1 j &&
      ["use", "kid", "x5u", "x5t", "x5t#S256"].all (optionalField fields isText) &&
      ["key_ops", "x5c"].all (optionalField fields isTexts) &&
      optionalField fields named "alg" &&
      (hasKey fields "EC" curves ["x", "y"] || hasKey fields "RSA" [] ["n", "e"] ||
        hasKey fields "oct" [] ["k"] || hasKey fields "OKP" curves ["x"])
  | _ => false

/-- The names of the fields of a header, in order. -/
def headerNames : List String :=
  ["typ", "alg", "cty", "jku", "jwk", "kid", "x5u", "x5c", "x5t", "x5t#S256"]

/-- A value that passes a test. -/
def passing? (ok : Json → Bool) (j : Json) : Option Unit := if ok j then some () else none

/-- The algorithm that a header names, when the header has the right form. -/
def headerAlgorithm? (j : Json) : Option Algorithm := do
  let [typ, alg, cty, jku, jwk, kid, x5u, x5c, x5t, x5tS256] ← Json.slots? headerNames j | none
  let _ ← typ.optional (passing? isText)
  let algorithm ← alg.required Algorithm.ofJson?
  let _ ← cty.optional (passing? isText)
  let _ ← jku.optional (passing? isText)
  let _ ← jwk.optional (passing? isKey)
  let _ ← kid.optional (passing? isText)
  let _ ← x5u.optional (passing? isText)
  let _ ← x5c.optional (passing? isTexts)
  let _ ← x5t.optional (passing? isText)
  let _ ← x5tS256.optional (passing? isText)
  return algorithm

end ConferenceLedger.Token

import ConferenceLedger.Digest.Sha2

/-!
# Keyed digests

HMAC over SHA-256: a key longer than a block is replaced by its digest, a shorter one is
padded with zeros, and the message is digested under two masked copies of it.
-/

namespace ConferenceLedger.Hmac

/-- The key as exactly one block, when it is no longer than a block. -/
def blockKey (key : Bytes) : Bytes :=
  let k := if key.length ≤ 64 then key else (sha256 key).bytes
  k ++ List.replicate (64 - k.length) 0

/-- The block key with every byte masked. -/
def masked (mask : UInt8) (key : Bytes) : Bytes := (blockKey key).map (mask ^^^ ·)

/-- The authentication code of a message under a key. -/
def sha256 (key message : Bytes) : Octets 32 :=
  ConferenceLedger.sha256 (masked 0x5c key ++
    (ConferenceLedger.sha256 (masked 0x36 key ++ message)).bytes)

end ConferenceLedger.Hmac

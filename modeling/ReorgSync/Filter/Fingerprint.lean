import ReorgSync.Codec.Values
import ReorgSync.Digest.Sha256
import ReorgSync.Json.Print

namespace ReorgSync.Filter

/-! The key of a filter in a store: a digest of the text of its normal form.
Filters with one normal form have one key. -/

/-- The text of the normal form. -/
def canonicalText (filter : Filter) : String :=
  filter.normalized.encode.print

/-- The key under a given digest. -/
def fingerprintWith (digest : List UInt8 → List UInt8) (filter : Filter) : String :=
  Digest.hex (digest filter.canonicalText.toUTF8.toList)

/-- The key under SHA-256. -/
def fingerprint (filter : Filter) : String :=
  filter.fingerprintWith Digest.sha256

end ReorgSync.Filter

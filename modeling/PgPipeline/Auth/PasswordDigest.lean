import PgPipeline.Digest.Md5
import PgPipeline.Text.Utf8

namespace PgPipeline

/-- The digest of password and user name, digested once more with the server's salt. -/
def passwordDigest (user password : String) (salt : Bytes) : String :=
  let inner := Bytes.hex (Digest.md5 (Utf8.encode password ++ Utf8.encode user))
  "md5" ++ Bytes.hex (Digest.md5 (Utf8.encode inner ++ salt))

end PgPipeline

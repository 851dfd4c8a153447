import SqlDialect.Secure.KeyPair
import SqlDialect.Text.Named

set_option autoImplicit false

/-! # Encryption of connections

What the settings of an address ask for when a connection goes over a network: how strictly the server
is checked, whose certificates are trusted, and with which certificate and key the client shows who it
is. Certificates and keys are read from files. -/

namespace SqlDialect

/-- What the settings of an address ask for. -/
structure Encryption where
  /-- How strictly the server is checked. -/
  mode : Bytes := []
  /-- The file of trusted certificates; empty for the usual ones. -/
  trusted : Bytes := []
  /-- The file of the client's certificate; empty if there is none. -/
  certificate : Bytes := []
  /-- The file of the client's key; empty if there is none. -/
  key : Bytes := []
deriving Repr, DecidableEq

namespace Encryption

/-- The encryption that settings ask for. Trust in the certificates of the system goes with the
strictest check. -/
def ofSettings (settings : Named Bytes) : Encryption :=
  let get (name : String) : Bytes := (settings.lookup (ascii name)).getD []
  let trusted := get "sslrootcert"
  let mode := get "sslmode"
  { mode :=
      if trusted = ascii "system" then ascii "verify-full"
      else if mode.isEmpty then ascii "prefer"
      else mode
    trusted := if trusted = ascii "system" then [] else trusted
    certificate := get "sslcert"
    key := get "sslkey" }

/-- The modes in which something is encrypted. -/
def modes : List Bytes :=
  ["allow", "prefer", "require", "verify-ca", "verify-full"].map ascii

/-- Whether the trusted certificates can be read. -/
def hasTrust (e : Encryption) (read : Bytes → Option Bytes) : Bool :=
  e.trusted.isEmpty || (read e.trusted).any Certificate.isIn

/-- Whether the client has no certificate, or one that can be read together with its key. -/
def hasIdentity (e : Encryption) (read : Bytes → Option Bytes) : Bool :=
  if e.certificate.isEmpty && e.key.isEmpty then true
  else
    match read e.certificate, read e.key with
    | some certificate, some key => KeyPair.isUsable certificate key
    | _, _ => false

/-- Whether connections can be set up. A client that does not encrypt needs no identity, but the trusted
certificates must be readable even then. -/
def isPossible (e : Encryption) (read : Bytes → Option Bytes) : Bool :=
  e.hasTrust read && (e.mode == ascii "disable" || modes.contains e.mode && e.hasIdentity read)

end Encryption

end SqlDialect

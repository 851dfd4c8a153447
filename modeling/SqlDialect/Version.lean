import SqlDialect.Text.Space

set_option autoImplicit false

/-! # Version text

A build knows its version and its commit, or finds them among the settings it was built with. A
development version is shown with the start of its commit. -/

namespace SqlDialect

/-- What a build knows about itself. -/
structure BuildInfo where
  version : Bytes
  commit : Bytes
deriving Repr, DecidableEq

namespace BuildInfo

/-- The version of a build that has none. -/
def devVersion : Bytes := ascii "dev"

/-- The commit of a build that does not know it. -/
def unknownCommit : Bytes := ascii "unknown"

/-- Fills in what is not known: the version from the main module, the commit from the last setting
that names one. -/
def complete (b : BuildInfo) (main : Bytes) (settings : List (Bytes × Bytes)) : BuildInfo :=
  let version := Bytes.trimSpace b.version
  let commit := Bytes.trimSpace b.commit
  { version :=
      if (version == devVersion || version.isEmpty) && !main.isEmpty && main != ascii "(devel)" then
        main
      else b.version
    commit :=
      if commit.isEmpty || commit == unknownCommit then
        settings.foldl (fun c s => if s.1 == ascii "vcs.revision" then s.2 else c) b.commit
      else b.commit }

/-- The first seven bytes of a commit; empty if it is not known. -/
def shortCommit (b : BuildInfo) : Bytes :=
  let commit := Bytes.trimSpace b.commit
  if commit == unknownCommit then [] else commit.take 7

/-- The version as it is shown. -/
def format (b : BuildInfo) : Bytes :=
  let version := Bytes.trimSpace b.version
  if !version.isEmpty && version != devVersion then version
  else if b.shortCommit.isEmpty then devVersion
  else devVersion ++ ascii "-" ++ b.shortCommit

end BuildInfo

end SqlDialect

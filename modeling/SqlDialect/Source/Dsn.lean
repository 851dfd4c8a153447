import SqlDialect.Net.HostPort
import SqlDialect.Text.Case
import SqlDialect.Text.Named
import SqlDialect.Text.Numeral
import SqlDialect.Text.Quoted
import SqlDialect.Time.Duration
import SqlDialect.Time.ZoneNames

set_option autoImplicit false

/-! # Addresses of MySQL databases

An address reads `user:password@net(address)/database?name=value&…`. The last slash ends the place of
the server and the last at sign before it ends the credentials, so either may occur in a password.
Parameters with a meaning of their own are read and, once all are known, checked; all others are
passed on. -/

namespace SqlDialect

/-! ## Parameters -/

/-- What a parameter with a meaning of its own holds. -/
inductive DsnParamKind where
  /-- Yes or no, written only if it is not `usual`. -/
  | flag (usual : Bool)
  /-- A text as it stands. -/
  | text
  /-- A text as it stands, written only if it is not empty. -/
  | word
  /-- A text in percent coding. -/
  | coded
  /-- A length of time, written only if it is positive. -/
  | duration
  /-- The precision of times, which is a length of time. -/
  | precision
  /-- A whole number, written only if it is not `usual`. -/
  | number (usual : Int)
  /-- How the connection is encrypted. -/
  | tls
  /-- The name of a registered key. -/
  | serverKey
  /-- A time zone, which is checked but never written: times are read in UTC. -/
  | zone
deriving Repr, DecidableEq

/-- The value of such a parameter. -/
inductive DsnValue where
  | flag (b : Bool)
  | text (s : Bytes)
  | duration (d : Duration)
  | number (n : Int)
deriving Repr, DecidableEq

/-- The parameters with a meaning of their own, in the order in which they are written. -/
def dsnParams : List (String × DsnParamKind) :=
  [("allowAllFiles", .flag false), ("allowCleartextPasswords", .flag false),
    ("allowFallbackToPlaintext", .flag false), ("allowNativePasswords", .flag true),
    ("allowOldPasswords", .flag false), ("checkConnLiveness", .flag true),
    ("clientFoundRows", .flag false), ("charset", .text), ("collation", .word),
    ("columnsWithAlias", .flag false), ("connectionAttributes", .coded), ("compress", .flag false),
    ("interpolateParams", .flag false), ("loc", .zone), ("multiStatements", .flag false),
    ("parseTime", .flag false), ("timeTruncate", .precision), ("readTimeout", .duration),
    ("rejectReadOnly", .flag false), ("serverPubKey", .serverKey), ("timeout", .duration),
    ("tls", .tls), ("writeTimeout", .duration), ("maxAllowedPacket", .number 67108864)]

/-! ## Errors -/

/-- What can be wrong with an address. A text in percent coding that cannot be read is kept with the
place where it ends. -/
inductive DsnError where
  | noSlash
  /-- A parenthesis is closed before a slash that is not the last one. -/
  | uncodedSlash
  | openParenthesis
  | noUsualAddress (net : Bytes)
  | badFlag (value : Bytes)
  | badNumber (value : Bytes) (fault : NumeralFault)
  | badDuration (value : Bytes) (fault : DurationFault)
  | badPrecision (value : Bytes) (fault : DurationFault)
  | badCode (place : Bytes)
  | badAttributes (place : Bytes)
  | badTlsName (place : Bytes)
  | badKeyName (place : Bytes)
  | badDatabase (name place : Bytes)
  | badZoneName
  | unknownZone (name : Bytes)
  | unknownTls (name : Bytes)
  | unknownKey (name : Bytes)
  /-- A collation in which text cannot be filled in safely. -/
  | unsafeCollation
  | strictMode
  | noDatabase
deriving Repr, DecidableEq

namespace DsnError

/-- The wording of a percent sign without its two digits. -/
def codeText (place : Bytes) : Bytes :=
  ascii "invalid URL escape " ++ Bytes.quoted place

/-- What is wrong in particular. -/
def detail : DsnError → Bytes
  | noSlash => ascii "invalid DSN: missing the slash separating the database name"
  | uncodedSlash => ascii "invalid DSN: did you forget to escape a param value?"
  | openParenthesis =>
    ascii "invalid DSN: network address not terminated (missing closing brace)"
  | noUsualAddress net => ascii "default addr for network '" ++ net ++ ascii "' unknown"
  | badFlag value => ascii "invalid bool value: " ++ value
  | badNumber value fault =>
    ascii "strconv.Atoi: parsing " ++ Bytes.quoted value ++ ascii ": " ++ fault.message
  | badDuration value fault => fault.message value
  | badPrecision value fault =>
    ascii "invalid timeTruncate value: " ++ value ++ ascii ", error: " ++ fault.message value
  | badCode place => codeText place
  | badAttributes place => ascii "invalid connectionAttributes value: " ++ codeText place
  | badTlsName place => ascii "invalid value for TLS config name: " ++ codeText place
  | badKeyName place => ascii "invalid value for server pub key name: " ++ codeText place
  | badDatabase name place =>
    ascii "invalid dbname " ++ Bytes.quoted name ++ ascii ": " ++ codeText place
  | badZoneName => ascii "time: invalid location name"
  | unknownZone name => ascii "unknown time zone " ++ name
  | unknownTls name => ascii "invalid value / unknown config name: " ++ name
  | unknownKey name => ascii "invalid value / unknown server pub key name: " ++ name
  | unsafeCollation =>
    ascii "invalid DSN: interpolateParams can not be used with unsafe collations"
  | strictMode => ascii "strict mode has been removed"
  | noDatabase => ascii "empty name"

/-- The wording of an error. -/
def message : DsnError → Bytes
  | noDatabase => ascii "cannot extract database name from DSN: " ++ detail noDatabase
  | _ => ascii "parse mysql dsn"

end DsnError

namespace DsnParamKind

/-- Reads yes or no. -/
def flag? (s : Bytes) : Option Bool :=
  if (["1", "true", "TRUE", "True"].map ascii).contains s then some true
  else if (["0", "false", "FALSE", "False"].map ascii).contains s then some false
  else none

/-- Reads how the connection is encrypted: yes, no, one of two words in any letter case, or a name. -/
def readTls (s : Bytes) : Except DsnError Bytes :=
  let word := Bytes.toLower s
  match flag? s with
  | some true => .ok (ascii "true")
  | some false => .ok (ascii "false")
  | none =>
    if word == ascii "skip-verify" || word == ascii "preferred" then .ok word
    else (Bytes.unescape true s).mapError .badTlsName

/-- Reads a time zone. -/
def readZone (s : Bytes) : Except DsnError Bytes := do
  let name ← (Bytes.unescape true s).mapError .badCode
  if name.isEmpty || name == ascii "Local" || isZoneName name then return name
  let isOutside := (Bytes.cut? (ascii "..") name).isSome || name.startsWith [47] ||
    name.startsWith [92]
  throw (if isOutside then .badZoneName else .unknownZone name)

/-- Reads the value of a parameter. -/
def read (k : DsnParamKind) (s : Bytes) : Except DsnError DsnValue :=
  match k with
  | flag _ =>
    match flag? s with
    | some b => .ok (.flag b)
    | none => .error (.badFlag s)
  | text => .ok (.text s)
  | word => .ok (.text s)
  | coded => ((Bytes.unescape true s).mapError DsnError.badAttributes).map .text
  | duration => ((Duration.parse s).mapError (DsnError.badDuration s)).map .duration
  | precision => ((Duration.parse s).mapError (DsnError.badPrecision s)).map .duration
  | number _ => ((Numeral.parseDecimal s).mapError (DsnError.badNumber s)).map .number
  | tls => (readTls s).map .text
  | serverKey => ((Bytes.unescape true s).mapError DsnError.badKeyName).map .text
  | zone => (readZone s).map .text

/-- The text of a value; none if it goes without saying. -/
def written? (k : DsnParamKind) (v : DsnValue) : Option Bytes :=
  match k, v with
  | flag usual, .flag b =>
    if b = usual then none else some (if b then ascii "true" else ascii "false")
  | text, .text s => some s
  | word, .text s => if s.isEmpty then none else some s
  | coded, .text s => if s.isEmpty then none else some (Bytes.escapeQuery s)
  | tls, .text s => if s.isEmpty then none else some (Bytes.escapeQuery s)
  | serverKey, .text s => if s.isEmpty then none else some (Bytes.escapeQuery s)
  | duration, .duration d => if 0 < d.nanos then some d.text else none
  | precision, .duration d => if 0 < d.nanos then some d.text else none
  | number usual, .number n =>
    if n = usual then none
    else some (if n < 0 then 45 :: Bytes.decimal n.natAbs else Bytes.decimal n.natAbs)
  | _, _ => none

end DsnParamKind

/-! ## Addresses -/

/-- An address. -/
structure Dsn where
  user : Bytes := []
  password : Bytes := []
  net : Bytes := []
  address : Bytes := []
  database : Bytes := []
  /-- The parameters with a meaning of their own. -/
  params : Named DsnValue := []
  /-- All other parameters. -/
  extra : Named Bytes := []
deriving Repr, DecidableEq

namespace Dsn

/-- The kind of a parameter, if it has a meaning of its own. -/
def paramKind? (name : Bytes) : Option DsnParamKind :=
  (dsnParams.find? fun p => ascii p.1 == name).map Prod.snd

/-- The text of a parameter; empty if it is not given. -/
def textOf (d : Dsn) (name : String) : Bytes :=
  match d.params.lookup (ascii name) with
  | some (.text s) => s
  | _ => []

/-- Whether a flag is set. -/
def isSet (d : Dsn) (name : String) : Bool :=
  d.params.lookup (ascii name) == some (.flag true)

/-- Sets a parameter with a meaning of its own. -/
def set (d : Dsn) (name : String) (value : DsnValue) : Dsn :=
  { d with params := Named.assign d.params (ascii name) value }

/-! ## Reading -/

/-- Adds a parameter `name=value`; anything without an equals sign is passed over. -/
def addParam (d : Dsn) (param : Bytes) : Except DsnError Dsn :=
  match Bytes.cut? [61] param with
  | none => .ok d
  | some (name, value) =>
    match paramKind? name with
    | some kind => (kind.read value).map fun v => { d with params := Named.assign d.params name v }
    | none =>
      if name = ascii "strict" then .error .strictMode
      else ((Bytes.unescape true value).mapError DsnError.badCode).map fun v =>
        { d with extra := Named.assign d.extra name v }

/-- The net and the address of a place `net(address)`. -/
def place (s : Bytes) : Except DsnError (Bytes × Bytes) :=
  match Bytes.cut? [40] s with
  | none => .ok (s, [])
  | some (net, inner) =>
    match Bytes.dropTrail? [41] inner with
    | some address => .ok (net, address)
    | none => .error (if inner.contains 41 then .uncodedSlash else .openParenthesis)

/-- A TCP address with its port, which is 3306 if it names none. -/
def withPort (address : Bytes) : Bytes :=
  if (HostPort.split? address).isSome then address else HostPort.join address (ascii "3306")

/-- Fills in the usual net and address. -/
def complete (d : Dsn) : Except DsnError Dsn :=
  let net := if d.net.isEmpty then ascii "tcp" else d.net
  if d.address.isEmpty then
    if net = ascii "tcp" then .ok { d with net, address := ascii "127.0.0.1:3306" }
    else if net = ascii "unix" then .ok { d with net, address := ascii "/tmp/mysql.sock" }
    else .error (.noUsualAddress net)
  else .ok { d with net, address := if net = ascii "tcp" then withPort d.address else d.address }

/-- The collations in which a character may end with a backslash, so that text cannot be filled in
safely. -/
def unsafeCollations : List String :=
  ["big5_chinese_ci", "sjis_japanese_ci", "gbk_chinese_ci", "big5_bin", "gb2312_bin", "gbk_bin",
    "sjis_bin", "cp932_japanese_ci", "cp932_bin", "gb18030_chinese_ci", "gb18030_bin",
    "gb18030_unicode_520_ci"]

/-- Fails if text would be filled in on this side in a collation that is not safe. -/
def checkCollation (d : Dsn) : Except DsnError Unit :=
  if d.isSet "interpolateParams" && (unsafeCollations.map ascii).contains (d.textOf "collation") then
    .error .unsafeCollation
  else .ok ()

/-- Fails if a name of an encryption is unknown. One that is only preferred allows to go on without
it. -/
def checkTls (d : Dsn) : Except DsnError Dsn :=
  let name := d.textOf "tls"
  if name = ascii "preferred" then .ok (d.set "allowFallbackToPlaintext" (.flag true))
  else if (["", "false", "true", "skip-verify"].map ascii).contains name then .ok d
  else .error (.unknownTls name)

/-- Fails if a key is named: none is registered. -/
def checkKey (d : Dsn) : Except DsnError Unit :=
  let name := d.textOf "serverPubKey"
  if name.isEmpty then .ok () else .error (.unknownKey name)

/-- Checks an address as a whole and fills in what it leaves out. -/
def check (d : Dsn) : Except DsnError Dsn := do
  d.checkCollation
  let d ← d.complete
  let d ← d.checkTls
  d.checkKey
  return d

/-- Reads an address. The empty text is an address that leaves everything to its usual value. -/
def parse (s : Bytes) : Except DsnError Dsn :=
  match Bytes.cutLast? 47 s with
  | none => if s.isEmpty then check {} else .error .noSlash
  | some (server, rest) => do
    let (credentials, server) := (Bytes.cutLast? 64 server).getD ([], server)
    let (user, password) := (Bytes.cut? [58] credentials).getD (credentials, [])
    let (net, address) ← place server
    let (name, params) := (Bytes.cut? [63] rest).getD (rest, [])
    let d ← (Bytes.splitOnByte 38 params).foldlM addParam { user, password, net, address }
    let database ← (Bytes.unescape false name).mapError (DsnError.badDatabase name)
    { d with database }.check

/-- The database of an address. -/
def databaseName (d : Dsn) : Except DsnError Bytes :=
  if d.database.isEmpty then .error .noDatabase else .ok d.database

/-! ## Connecting -/

/-- Whether a statement fits into one packet. A limit that is not positive is left to the server. -/
def fits (d : Dsn) (sql : Bytes) : Bool :=
  match d.params.lookup (ascii "maxAllowedPacket") with
  | some (.number limit) => limit ≤ 0 || sql.length < limit
  | _ => true

/-- The statements that choose a character set, of which one has to work; none if no character set
is given. -/
def charsetStatements (d : Dsn) : List Bytes :=
  let collation := d.textOf "collation"
  let order := if collation.isEmpty then [] else ascii " COLLATE " ++ collation
  match d.params.lookup (ascii "charset") with
  | some (.text charsets) =>
    (Bytes.splitOnByte 44 charsets).map fun charset => ascii "SET NAMES " ++ charset ++ order
  | _ => []

/-- The statement that passes on the other parameters. -/
def extraStatement (d : Dsn) : Bytes :=
  ascii "SET " ++ Bytes.join (ascii ", ") (d.extra.map fun (name, value) =>
    name ++ ascii " = " ++ value)

/-- Whether the statements with which a connection starts can be sent. -/
def canGreet (d : Dsn) : Bool :=
  let charsets := d.charsetStatements
  (charsets.isEmpty || charsets.any d.fits) && (d.extra.isEmpty || d.fits d.extraStatement)

/-- Whether a password may be proved in the usual way. -/
def allowsUsualProof (d : Dsn) : Bool :=
  d.params.lookup (ascii "allowNativePasswords") != some (.flag false)

/-- Whether the server must be able to encrypt. -/
def needsEncryption (d : Dsn) : Bool :=
  (["true", "skip-verify"].map ascii).contains (d.textOf "tls") &&
    !d.isSet "allowFallbackToPlaintext"

/-! ## Writing -/

/-- The address for reading definitions: times are parsed, placeholders are filled in on this side,
and the character set is the given one unless that is empty. -/
def forReading (d : Dsn) (charset : Bytes) : Dsn :=
  let d := (d.set "parseTime" (.flag true)).set "interpolateParams" (.flag true)
  if charset.isEmpty then d else (d.set "collation" (.text [])).set "charset" (.text charset)

/-- The parameters that are written, in order. -/
def writtenParams (d : Dsn) : List (Bytes × Bytes) :=
  let known := dsnParams.filterMap fun (name, kind) => do
    let value ← d.params.lookup (ascii name)
    let text ← kind.written? value
    some (ascii name, text)
  let extra := (Bytes.sorted (d.extra.map Prod.fst)).filterMap fun name =>
    (d.extra.lookup name).map fun value => (name, Bytes.escapeQuery value)
  known ++ extra

/-- The text of an address. -/
def format (d : Dsn) : Bytes :=
  let credentials :=
    if d.user.isEmpty then []
    else d.user ++ (if d.password.isEmpty then [] else 58 :: d.password) ++ ascii "@"
  let params := d.writtenParams.map fun (name, value) => name ++ ascii "=" ++ value
  credentials ++ d.net ++ ascii "(" ++ d.address ++ ascii ")/" ++ Bytes.escapeSegment d.database ++
    if params.isEmpty then [] else 63 :: Bytes.join (ascii "&") params

end Dsn

end SqlDialect

import SqlDialect.Text.Percent

set_option autoImplicit false

/-! # Numeric network addresses

Four decimal numbers with dots, or up to eight hexadecimal groups with colons. Of the latter, one run
of groups that are zero may be left out, the last two groups may be written as decimal numbers, and a
zone may follow behind a percent sign. -/

namespace SqlDialect

namespace Ip

/-- Whether a text is a decimal number below 256 without leading zeros. -/
def isOctet (s : Bytes) : Bool :=
  !s.isEmpty && s.length ≤ 3 && s.all Bytes.isDigit && Bytes.digitsValue s < 256 &&
    (s.length == 1 || s.head? != some 48)

/-- Whether a text is an address of four numbers. -/
def isV4 (s : Bytes) : Bool :=
  let parts := Bytes.splitOnByte 46 s
  parts.length == 4 && parts.all isOctet

/-- Whether a text is a hexadecimal group. -/
def isGroup (s : Bytes) : Bool :=
  !s.isEmpty && s.length ≤ 4 && s.all fun b => (Bytes.hexValue? b).isSome

/-- How many groups the last part of an address stands for, if it is one. -/
def lastGroups? (s : Bytes) : Option Nat :=
  if isGroup s then some 1 else if isV4 s then some 2 else none

/-- How many groups there are in the parts of an address. -/
def groups? : List Bytes → Option Nat
  | [] => some 0
  | [last] => lastGroups? last
  | part :: rest => if isGroup part then (groups? rest).map (· + 1) else none

/-- The parts of one side of an address; an empty side has none. -/
def parts (s : Bytes) : List Bytes :=
  if s.isEmpty then [] else Bytes.splitOnByte 58 s

/-- Whether a text is an address of groups, without a zone. -/
def isV6 (s : Bytes) : Bool :=
  match Bytes.cut? (ascii "::") s with
  | some (front, back) =>
    (parts front).all isGroup &&
      (groups? (parts back)).any fun count => (parts front).length + count < 8
  | none => groups? (parts s) == some 8

/-- Whether a text is an address of groups that may have a zone. -/
def isZonedV6 (s : Bytes) : Bool :=
  match Bytes.cut? [37] s with
  | some (address, zone) => isV6 address && !zone.isEmpty
  | none => isV6 s

/-- Whether a text is a numeric address without a zone. -/
def isAddress (s : Bytes) : Bool :=
  isV4 s || isV6 s

end Ip

end SqlDialect

import SqlDialect.Text.Bytes

set_option autoImplicit false

/-! # Hosts with ports

A port follows its host behind a colon. A host that has colons itself stands between brackets. -/

namespace SqlDialect

namespace HostPort

/-- Whether a text has no brackets. -/
def isFreeOfBrackets (s : Bytes) : Bool :=
  s.all fun b => b != 91 && b != 93

/-- The host and the port of a text; none if it does not have exactly one of each. Either may be
empty. -/
def split? (s : Bytes) : Option (Bytes × Bytes) :=
  match Bytes.cutLast? 58 s with
  | none => none
  | some (host, port) =>
    if !isFreeOfBrackets port then none
    else
      match host with
      | 91 :: inner =>
        match Bytes.cut? [93] inner with
        | some (name, []) => if name.contains 91 then none else some (name, port)
        | _ => none
      | _ => if isFreeOfBrackets host && !host.contains 58 then some (host, port) else none

/-- A host and a port as one text. -/
def join (host port : Bytes) : Bytes :=
  if host.contains 58 then ascii "[" ++ host ++ ascii "]:" ++ port
  else host ++ ascii ":" ++ port

end HostPort

end SqlDialect

import SqlDialect.Text.Numeral
import SqlDialect.Text.Quoted

set_option autoImplicit false

/-! # Flags

Words on a command line that start with a dash set options: `--name value`, `--name=value`, or letters
behind a single dash. A switch needs no value. Flags and other words may come in any order; behind a
lone `--` every word counts as it stands. -/

namespace SqlDialect

/-- What a flag does to options of type `α`. -/
inductive FlagEffect (α : Type) where
  | text (set : Bytes → α → α)
  | switch (set : Bool → α → α)
  | number (set : Int → α → α)

/-- A flag with a name and perhaps a letter; only switches have letters. -/
structure Flag (α : Type) where
  name : Bytes
  letter : Option UInt8 := none
  effect : FlagEffect α

/-- Why the value of a flag is refused. -/
inductive FlagValueFault where
  | noSwitch
  | noNumber (fault : NumeralFault)
deriving Repr, DecidableEq

/-- What can be wrong with the flags of a command line. -/
inductive FlagError where
  | malformed (word : Bytes)
  | unknown (name : Bytes)
  /-- The letters from the first unknown one on. -/
  | unknownLetter (letter : UInt8) (letters : Bytes)
  | noValue (name : Bytes)
  /-- A value that is refused; `shown` is how the flag is shown. -/
  | badValue (value shown : Bytes) (fault : FlagValueFault)
deriving Repr, DecidableEq

namespace FlagValueFault

/-- The wording of a fault. -/
def message (value : Bytes) : FlagValueFault → Bytes
  | noSwitch =>
    ascii "strconv.ParseBool: parsing " ++ Bytes.quoted value ++ ascii ": " ++
      NumeralFault.malformed.message
  | noNumber fault =>
    ascii "strconv.ParseInt: parsing " ++ Bytes.quoted value ++ ascii ": " ++ fault.message

end FlagValueFault

namespace FlagError

/-- The wording of an error. A letter beyond ASCII is shown by the byte that its character starts
with. -/
def message : FlagError → Bytes
  | malformed word => ascii "bad flag syntax: " ++ word
  | unknown name => ascii "unknown flag: --" ++ name
  | unknownLetter letter letters =>
    let shown := (Utf8.encode letter.toNat).headD letter
    ascii "unknown shorthand flag: " ++ quotedCharacter shown.toNat ++ ascii " in -" ++ letters
  | noValue name => ascii "flag needs an argument: --" ++ name
  | badValue value shown fault =>
    ascii "invalid argument " ++ Bytes.quoted value ++ ascii " for " ++ Bytes.quoted shown ++
      ascii " flag: " ++ fault.message value

end FlagError

/-- Reads the value of a switch. -/
def switchValue? (s : Bytes) : Option Bool :=
  if (["1", "t", "T", "TRUE", "true", "True"].map ascii).contains s then some true
  else if (["0", "f", "F", "FALSE", "false", "False"].map ascii).contains s then some false
  else none

namespace Flag

variable {α : Type}

/-- Whether the flag goes without a value. -/
def isSwitch (f : Flag α) : Bool :=
  match f.effect with
  | .switch _ => true
  | _ => false

/-- The flag as messages show it. -/
def shown (f : Flag α) : Bytes :=
  match f.letter with
  | some letter => [45, letter] ++ ascii ", --" ++ f.name
  | none => ascii "--" ++ f.name

/-- Sets the option of a flag. -/
def apply (f : Flag α) (value : Bytes) (o : α) : Except FlagError α :=
  match f.effect with
  | .text set => .ok (set value o)
  | .switch set =>
    match switchValue? value with
    | some b => .ok (set b o)
    | none => .error (.badValue value f.shown .noSwitch)
  | .number set =>
    match Numeral.parse value with
    | .ok n => .ok (set n o)
    | .error fault => .error (.badValue value f.shown (.noNumber fault))

/-- The flag of a name. -/
def find? (flags : List (Flag α)) (name : Bytes) : Option (Flag α) :=
  List.find? (·.name == name) flags

/-- The flag of a letter. -/
def ofLetter? (flags : List (Flag α)) (letter : UInt8) : Option (Flag α) :=
  List.find? (·.letter == some letter) flags

end Flag

/-- What a word of a command line is. -/
inductive FlagWord where
  | plain
  | endOfFlags
  /-- A flag by its name, with its value if that is part of the word. -/
  | named (name : Bytes) (value : Option Bytes)
  | letters (letters : Bytes)
  | malformed
deriving Repr, DecidableEq

namespace FlagWord

/-- Reads a word. A lone dash is a word like any other. -/
def ofText (word : Bytes) : FlagWord :=
  match word with
  | [45, 45] => .endOfFlags
  | 45 :: 45 :: 45 :: _ => .malformed
  | 45 :: 45 :: 61 :: _ => .malformed
  | 45 :: 45 :: rest =>
    match Bytes.cut? [61] rest with
    | some (name, value) => .named name (some value)
    | none => .named rest none
  | 45 :: b :: rest => .letters (b :: rest)
  | _ => .plain

end FlagWord

namespace Flag

variable {α : Type}

/-- Letters that start like this are meant for a test runner. -/
def testerLead : Bytes := ascii "test."

/-- Sets the switches of letters. The last of them may be followed by an equals sign and a value.
Letters for a test runner are passed over. -/
def applyLetters (flags : List (Flag α)) : Bytes → α → Except FlagError α
  | [], o => .ok o
  | letter :: rest, o =>
    if Bytes.startsWith (letter :: rest) testerLead then .ok o
    else
      match ofLetter? flags letter with
      | none => .error (.unknownLetter letter (letter :: rest))
      | some f =>
        match rest with
        | 61 :: b :: value => f.apply (b :: value) o
        | _ => (f.apply (ascii "true") o).bind (applyLetters flags rest)

/-- Sets the options that the words ask for: the options, and the words that are no flags. -/
def applyAll (flags : List (Flag α)) : List Bytes → α → Except FlagError (α × List Bytes)
  | [], o => .ok (o, [])
  | word :: words, o =>
    match FlagWord.ofText word with
    | .plain => (applyAll flags words o).map fun (o, plain) => (o, word :: plain)
    | .endOfFlags => .ok (o, words)
    | .malformed => .error (.malformed word)
    | .letters letters => (applyLetters flags letters o).bind (applyAll flags words)
    | .named name value =>
      match find? flags name with
      | none => .error (.unknown name)
      | some f =>
        match value with
        | some v => (f.apply v o).bind (applyAll flags words)
        | none =>
          if f.isSwitch then (f.apply (ascii "true") o).bind (applyAll flags words)
          else
            match words with
            | [] => .error (.noValue name)
            | v :: words => (f.apply v o).bind (applyAll flags words)

end Flag

end SqlDialect

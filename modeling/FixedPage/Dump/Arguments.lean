import FixedPage.Decimal.Numeral
import FixedPage.Render.State

/-
  This file reads the arguments of the command that lists the
  drawing operations of a page:

    DIR PAGE [--size] [--max-visual-depth N] [--strict] [-v ...]

  Main declarations:
    * `Dump.Usage`
    * `Dump.Request`
    * `Dump.Usage.read`
-/

namespace FixedPage.Dump

------------------------------------------------------------
-- Requests
------------------------------------------------------------

/- Why arguments are not accepted. -/
inductive UsageFault where
  | unknown
      (argument : String)
  | repeated
      (argument : String)
  | missing
      (argument : String)
  | unwantedValue
      (argument : String)
  | invalidValue
      (argument value : String)
deriving DecidableEq, Repr

/- Wording of a usage fault. -/
def UsageFault.message : UsageFault → String
| .unknown argument =>
    "error: unexpected argument '" ++ argument ++ "' found"
| .repeated argument =>
    "error: the argument '" ++ argument
      ++ "' cannot be used multiple times"
| .missing argument =>
    "error: a value is required for '" ++ argument
      ++ "' but none was supplied"
| .unwantedValue argument =>
    "error: unexpected value for '" ++ argument ++ "' found"
| .invalidValue argument value =>
    "error: invalid value '" ++ value ++ "' for '" ++ argument ++ "'"

/- What is to be done with a page. -/
structure Request where
  directory : String
  page : String
  sizeOnly : Bool
  options : Options
deriving DecidableEq, Repr

/- What the arguments ask for. -/
inductive Usage where
  | run
      (request : Request)
  | version
  | help
deriving DecidableEq, Repr

------------------------------------------------------------
-- Arguments
------------------------------------------------------------

/- The arguments read so far, the latest free one first. -/
structure Progress where
  free : List String
  sizeOnly : Bool
  strict : Bool
  depth? : Option Nat

namespace Progress

/- No argument has been read. -/
def initial : Progress :=
  ⟨[], false, false, none⟩

/- Takes a free argument: the directory, then the page. -/
def takeFree
    (argument : String)
    (p : Progress) : Except UsageFault Progress :=
  match p.free with
  | [] =>
      if argument.isEmpty then .error (.missing "<DIR>")
      else .ok { p with free := [argument] }
  | [directory] => .ok { p with free := [argument, directory] }
  | _ => .error (.unknown argument)

/- Most that a limit may be. -/
def maxDepth : Nat :=
  Nat.pow 2 64 - 1

/- Reads a limit; a plus sign may precede it. -/
def readDepth?
    (value : String) : Option Nat :=
  let digits :=
    match value.toList with
    | '+' :: digits => digits
    | digits => digits
  if digits.isEmpty || !digits.all Char.isDigit then none
  else
    let n := Decimal.natOfDigits digits
    if n ≤ maxDepth then some n else none

/- Name of the limit on visual brushes. -/
def depthName : String :=
  "--max-visual-depth"

/- Takes the limit on visual brushes. -/
def takeDepth
    (value : String)
    (p : Progress) : Except UsageFault Progress :=
  if value.isEmpty then .error (.missing depthName)
  else
    match p.depth?, readDepth? value with
    | _, none => .error (.invalidValue depthName value)
    | some _, some _ => .error (.repeated depthName)
    | none, some n => .ok { p with depth? := some n }

/- Takes the switch for the size. -/
def takeSize
    (p : Progress) : Except UsageFault Progress :=
  if p.sizeOnly then .error (.repeated "--size")
  else .ok { p with sizeOnly := true }

/- Takes the switch for strictness. -/
def takeStrict
    (p : Progress) : Except UsageFault Progress :=
  if p.strict then .error (.repeated "--strict")
  else .ok { p with strict := true }

/- What the arguments ask for when there are no more. -/
def finish
    (p : Progress) : Except UsageFault Usage :=
  match p.free with
  | [page, directory] =>
      let depth := p.depth?.getD Options.standard.maxVisualDepth
      .ok (.run ⟨directory, page, p.sizeOnly, ⟨depth, p.strict⟩⟩)
  | [_] => .error (.missing "<PAGE>")
  | _ => .error (.missing "<DIR>")

end Progress

/-
  Reads a cluster of switches of one letter each; the result
  says what ends the reading of arguments, if anything does.
-/
def readLetters
    (argument : String) :
    List Char → Except UsageFault (Option Usage)
| [] => .ok none
| 'v' :: rest => readLetters argument rest
| 'V' :: _ => .ok (some .version)
| 'h' :: _ => .ok (some .help)
| _ => .error (.unknown argument)

/- The argument starts a switch. -/
def isSwitch
    (argument : String) : Bool :=
  argument.toList.head? == some '-' && argument != "-"

/-
  Reads arguments from first to last. Asking for the version or
  for help ends the reading.
-/
def readArguments
    (p : Progress) :
    List String → Except UsageFault Usage
| [] => p.finish
| "--" :: rest => do
    let p ← rest.foldlM (fun p argument => p.takeFree argument) p
    p.finish
| "--size" :: rest => do readArguments (← p.takeSize) rest
| "--strict" :: rest => do readArguments (← p.takeStrict) rest
| "--verbose" :: rest => readArguments p rest
| "--version" :: _ => .ok .version
| "--help" :: _ => .ok .help
| "--max-visual-depth" :: value :: rest => do
    if isSwitch value then throw (.unknown value)
    readArguments (← p.takeDepth value) rest
| "--max-visual-depth" :: [] => .error (.missing Progress.depthName)
| argument :: rest =>
    match argument.toList with
    | '-' :: '-' :: name =>
        let (name, value?) :=
          match Text.cutFirst '=' name with
          | some (name, value) =>
              (String.ofList name, some (String.ofList value))
          | none => (String.ofList name, none)
        match name, value? with
        | "max-visual-depth", some value => do
            readArguments (← p.takeDepth value) rest
        | _, some _ => .error (.unwantedValue argument)
        | _, none => .error (.unknown argument)
    | '-' :: first :: letters => do
        match ← readLetters argument (first :: letters) with
        | some usage => pure usage
        | none => readArguments p rest
    | _ => do readArguments (← p.takeFree argument) rest

/- What the arguments ask for. -/
def Usage.read
    (arguments : List String) : Except UsageFault Usage :=
  readArguments .initial arguments

end FixedPage.Dump

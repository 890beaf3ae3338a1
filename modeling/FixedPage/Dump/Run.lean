import FixedPage.Dump.Arguments
import FixedPage.Error
import FixedPage.Font.Obfuscation
import FixedPage.Image.Decode
import FixedPage.Package.Directory
import FixedPage.Profile.Read
import FixedPage.Render.Page
import FixedPage.Surface.Text
import FixedPage.Text.Blank

/-
  This file defines the command that lists the drawing operations
  of a page, or its size, as a function of its arguments and of
  the directory that holds the package. If it fails, it reports a
  message and what caused it, one cause after the other.

  Main declarations:
    * `Dump.Failure`
    * `Environment.ofPackage`
    * `Dump.Outcome`
    * `Dump.run`
-/

namespace FixedPage

/-
  An error and what caused it: a fault of the system is the cause
  of the error that reports it.
-/
def Error.chain : Error → List String
| .system fault => [(Error.system fault).message, fault.message]
| fault => [fault.message]

/- What a page of a package takes from outside. -/
def Environment.ofPackage
    {σ : Type}
    [PartReader σ]
    (package : σ)
    (page : String)
    (options : Options) : Environment Float :=
  let part? := fun name => (PartReader.read package name).toOption
  { source := page
    part? := part?
    loadFont := fun name => (Face.load part? name).map Face.font
    loadImage := Image.load part?
    readProfile := Profile.read
    options := options }

namespace Dump

variable {σ : Type} [PartReader σ]

------------------------------------------------------------
-- Failures
------------------------------------------------------------

/- A message and what caused it, the nearest cause first. -/
structure Failure where
  message : String
  causes : List String
deriving DecidableEq, Repr

/- The lines of a text. -/
def textLines
    (text : String) : List String :=
  (Text.fields (· == '\n') text.toList).map String.ofList

/- Puts a lead before the first line and blanks before the others. -/
def indented
    (lead blanks : String)
    (text : String) : List String :=
  match textLines text with
  | first :: rest => (lead ++ first) :: rest.map (blanks ++ ·)
  | [] => []

/- A cause with its number. -/
def numbered
    (number : Nat)
    (cause : String) : List String :=
  let digits := toString number
  let blanks := String.ofList (List.replicate (5 - digits.length) ' ')
  indented (blanks ++ digits ++ ": ") "       " cause

/- The lines that report several causes. -/
def causeLines : List String → List String
| [] => []
| [cause] => ["", "Caused by:"] ++ indented "    " "    " cause
| causes =>
    ["", "Caused by:"]
      ++ causes.zipIdx.flatMap fun (cause, i) => numbered i cause

namespace Failure

/- Failure with an error alone. -/
def ofError
    (fault : Error) : Failure :=
  ⟨fault.message, fault.chain.drop 1⟩

/- Failure to do something because of an error. -/
def because
    (message : String)
    (fault : Error) : Failure :=
  ⟨message, fault.chain⟩

/- The lines that report a failure. -/
def lines
    (f : Failure) : List String :=
  textLines ("Error: " ++ f.message) ++ causeLines f.causes

end Failure

------------------------------------------------------------
-- Pages
------------------------------------------------------------

/- The line that gives the size of a page. -/
def sizeLines
    (env : Environment Float) : Except Failure (List String) :=
  match Page.size env with
  | .ok (width, height) =>
      .ok [Scalar.text width ++ " x " ++ Scalar.text height]
  | .error fault => .error (.ofError fault)

/- The lines that list the operations of a page. -/
def operationLines
    (env : Environment Float) : Except Failure (List String) :=
  let st := RenderState.start .empty .empty .empty
  match Page.render env st with
  | (.ok (), st) =>
      .ok (st.surface.operations.toList.map Operation.text)
  | (.error fault, _) =>
      .error (.because ("failed to render " ++ env.source) fault)

/- The lines that a request asks for. -/
def Request.lines
    (request : Request)
    (opened : Except SystemFault σ) :
    Except Failure (List String) :=
  match opened with
  | .error fault =>
      .error
        (.because
          ("failed to open package directory " ++ request.directory)
          (.system fault))
  | .ok package =>
      if !PartReader.has package request.page then
        .error
          ⟨"page " ++ request.page ++ " not found in "
            ++ request.directory, []⟩
      else
        let env := .ofPackage package request.page request.options
        if request.sizeOnly then sizeLines env else operationLines env

------------------------------------------------------------
-- Command
------------------------------------------------------------

/- What a run writes and the code that it ends with. -/
structure Outcome where
  code : Nat
  output : List String
  report : List String
deriving DecidableEq, Repr

/- The text that names the version. -/
def versionText : String :=
  "xpsdump 0.3.0"

/- The text that lists the arguments. -/
def helpText : String :=
  "Usage: xpsdump [OPTIONS] <DIR> <PAGE>"

/-
  Runs the command. `openDirectory` gives the package that is
  stored in a directory.
-/
def run
    (arguments : List String)
    (openDirectory : String → Except SystemFault σ) : Outcome :=
  match Usage.read arguments with
  | .error fault => ⟨2, [], [fault.message, "", helpText]⟩
  | .ok .version => ⟨0, [versionText], []⟩
  | .ok .help => ⟨0, [helpText], []⟩
  | .ok (.run request) =>
      match request.lines (openDirectory request.directory) with
      | .ok lines => ⟨0, lines, []⟩
      | .error failure => ⟨1, [], failure.lines⟩

end Dump

end FixedPage

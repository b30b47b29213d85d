import ScriptLint.Config.Basic
import ScriptLint.Inference.Annotated

namespace ScriptLint

structure LintOptions where
  filename : String
  config : Config

structure ParseFailure where
  filename : String
  errors : List String
deriving DecidableEq, Repr

def ParseFailure.message (f : ParseFailure) : String :=
  "failed to parse " ++ f.filename ++ ": " ++ "; ".intercalate f.errors

def parseSource (parse : Parser) (filename : String) (source : Text) :
    Except ParseFailure Program :=
  (parse source).mapError fun errors => ⟨filename, errors⟩

def lintSource (parse : Parser) (o : LintOptions) (source : Text) :
    Except ParseFailure LintResult :=
  (parseSource parse o.filename source).map fun program =>
    lint o.config ⟨source, some program.types⟩ program

structure FixResult where
  code : Text
  passes : Nat
  applied : Nat
  remaining : LintResult

def maxPasses : Nat := 10

/-- Fix a text with a number of passes left, on top of the passes and fixes made. -/
def fixFrom (parse : Parser) (o : LintOptions) :
    (left : Nat) → (code : Text) → (passes applied : Nat) → Except ParseFailure FixResult
  | 0, code, passes, applied =>
    (lintSource parse o code).map fun found => ⟨code, passes, applied, found⟩
  | left + 1, code, passes, applied =>
    (lintSource parse o code).bind fun found =>
      let pass := fixPass code found.proposals
      if found.fixableCount = 0 || !pass.isFixed then .ok ⟨code, passes, applied, found⟩
      else fixFrom parse o left pass.code (passes + 1) (applied + pass.applied)

def fixSource (parse : Parser) (o : LintOptions) (source : Text) :
    Except ParseFailure FixResult :=
  fixFrom parse o maxPasses source 0 0

structure FixStep where
  found : LintResult
  pass : PassResult

/-- The passes over a text one by one, at most `left`: up to the first that makes no fix, or
to a text that cannot be parsed. -/
def fixSteps (parse : Parser) (o : LintOptions) :
    (left : Nat) → Text → List (Except ParseFailure FixStep)
  | 0, _ => []
  | left + 1, code =>
    match lintSource parse o code with
    | .error failure => [.error failure]
    | .ok found =>
      let pass := fixPass code found.proposals
      .ok ⟨found, pass⟩ :: (if pass.isFixed then fixSteps parse o left pass.code else [])

end ScriptLint

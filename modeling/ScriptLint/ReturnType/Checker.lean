import ScriptLint.Lint.Run
import ScriptLint.ReturnType.Verdict
import ScriptLint.Syntax.Head

namespace ScriptLint

namespace ReturnTypeOptions

def ruleName : String := "explicit-function-return-type"

def missingReturnType : String := "missingReturnType"

def messages : List (String × String) := [(missingReturnType, "Missing return type on function.")]

def enter (n : Node) (frames : List Frame) : List Frame :=
  if n.kind = .returnStatement then
    match frames with
    | [] => []
    | frame :: outer => ⟨frame.function, frame.returns ++ [n]⟩ :: outer
  else if n.isTrackedFunction then ⟨n, []⟩ :: frames
  else frames

/-- What went wrong when a function ends without a frame. -/
def emptyStack (fn : Node) : LintError :=
  .invariant (if fn.kind.isFunctionExpression then
    "function stack is empty on function expression exit"
  else "function stack is empty on function declaration exit")

def judge (o : ReturnTypeOptions) (source : Text) (fn : Node) (frame : Frame)
    (ancestors : Ancestors) : List Report :=
  let chain := ancestors.logical
  if o.needsReturnType fn frame chain then
    [⟨frame.function.head source chain.head?, missingReturnType, []⟩]
  else []

def step (o : ReturnTypeOptions) (source : Text) (frames : List Frame) (v : Visit) :
    Except LintError (List Frame × List Report) :=
  match v.phase with
  | .enter => .ok (enter v.node frames, [])
  | .leave =>
    if v.node.isTrackedFunction then
      match frames with
      | [] => .error (emptyStack v.node)
      | frame :: outer => .ok (outer, o.judge source v.node frame v.ancestors)
    else .ok (frames, [])

def checker (o : ReturnTypeOptions) (source : Text) : Checker := ⟨List Frame, [], o.step source⟩

end ReturnTypeOptions

end ScriptLint

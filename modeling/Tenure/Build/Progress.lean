/- What a build reports while it goes on. -/
namespace Tenure.Build

inductive Stage where
  | load
  | analyze
  | generate
  | emit
  | native
  | relay
  | other (name : String)
  deriving DecidableEq, Repr, Inhabited

def Stage.text : Stage → String
  | .load => "load"
  | .analyze => "analyze"
  | .generate => "codegen"
  | .emit => "emit"
  | .native => "build"
  | .relay => "translate"
  | .other name => name

def Stage.ofText : String → Stage
  | "load" => .load
  | "analyze" => .analyze
  | "codegen" => .generate
  | "emit" => .emit
  | "build" => .native
  | "translate" => .relay
  | name => .other name

inductive Status where
  | queued
  | working
  | done
  | skipped
  | error
  | other (name : String)
  deriving DecidableEq, Repr, Inhabited

def Status.text : Status → String
  | .queued => "queued"
  | .working => "working"
  | .done => "done"
  | .skipped => "skipped"
  | .error => "error"
  | .other name => name

def Status.ofText : String → Status
  | "queued" => .queued
  | "working" => .working
  | "done" => .done
  | "skipped" => .skipped
  | "error" => .error
  | name => .other name

structure Progress where
  file : String
  stage : Stage
  status : Status
  detail : String := ""
  deriving DecidableEq, Repr, Inhabited

end Tenure.Build

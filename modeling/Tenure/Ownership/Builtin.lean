import Tenure.Ownership.Mode

/- Functions and methods that the language provides. -/
namespace Tenure

structure BuiltinMethod where
  receiver : Access := .read
  args : Access := .read
  refArgs : Bool := false

namespace BuiltinMethod

def table : List (String × BuiltinMethod) := [
  ("push", { receiver := .mutate, args := .store }),
  ("insert", { receiver := .mutate, args := .store }),
  ("push_str", { receiver := .mutate, refArgs := true }),
  ("pop", { receiver := .mutate }),
  ("remove", { receiver := .mutate }),
  ("clear", { receiver := .mutate }),
  ("sort", { receiver := .mutate }),
  ("reverse", { receiver := .mutate }),
  ("truncate", { receiver := .mutate }),
  ("contains", { refArgs := true }),
  ("starts_with", { refArgs := true }),
  ("ends_with", { refArgs := true })]

def named (name : String) : BuiltinMethod := (table.lookup name).getD {}

end BuiltinMethod

end Tenure

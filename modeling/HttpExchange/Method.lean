/-!
# Request methods
-/

namespace HttpExchange

/-- The nine methods.  Their names are written in capitals and compared exactly. -/
inductive Method
  | get | head | post | put | delete | options | patch | trace | connect
  deriving DecidableEq, Repr

namespace Method

/-- All methods. -/
def all : List Method := [get, head, post, put, delete, options, patch, trace, connect]

/-- The name on the request line. -/
def name : Method → String
  | get => "GET"
  | head => "HEAD"
  | post => "POST"
  | put => "PUT"
  | delete => "DELETE"
  | options => "OPTIONS"
  | patch => "PATCH"
  | trace => "TRACE"
  | connect => "CONNECT"

/-- The method of that name. -/
def ofName? (s : String) : Option Method := all.find? (·.name = s)

/-- Methods whose request carries a body, so that a length has to be declared. -/
def expectsBody : Method → Bool
  | post | put | patch => true
  | _ => false

theorem mem_all (m : Method) : m ∈ all := by cases m <;> decide

theorem ofName?_name (m : Method) : ofName? m.name = some m := by cases m <;> decide

theorem eq_name_of_ofName? {s : String} {m : Method} (h : ofName? s = some m) : m.name = s := by
  have := List.find?_some h
  simpa using this

end Method

end HttpExchange

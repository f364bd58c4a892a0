/-!
HTTP methods, and the places of a request where a parameter may stand.
-/

namespace ApiDescriptors

inductive Method
  | get
  | put
  | post
  | delete
  | options
  | head
  | patch
  | trace
deriving DecidableEq, Repr

namespace Method

-- The member of a path item under which the operation of a method is declared.
def key : Method → String
  | get     => "get"
  | put     => "put"
  | post    => "post"
  | delete  => "delete"
  | options => "options"
  | head    => "head"
  | patch   => "patch"
  | trace   => "trace"

def text : Method → String
  | get     => "GET"
  | put     => "PUT"
  | post    => "POST"
  | delete  => "DELETE"
  | options => "OPTIONS"
  | head    => "HEAD"
  | patch   => "PATCH"
  | trace   => "TRACE"

def all : List Method :=
  [get, put, post, delete, options, head, patch, trace]

def ofKey? (key : String) : Option Method :=
  all.find? (·.key = key)

@[simp]
theorem ofKey?_key (m : Method) : ofKey? m.key = some m := by
  cases m <;> rfl

theorem key_inj {m m' : Method} : m.key = m'.key ↔ m = m' := by
  refine ⟨fun he => ?_, congrArg key⟩
  have h : ofKey? m.key = some m' := he ▸ ofKey?_key m'
  exact Option.some.inj ((ofKey?_key m).symm.trans h)

end Method

inductive Location
  | path
  | query
  | header
  | cookie
deriving DecidableEq, Repr

namespace Location

def key : Location → String
  | path   => "path"
  | query  => "query"
  | header => "header"
  | cookie => "cookie"

def ofKey? (key : String) : Option Location :=
  [path, query, header, cookie].find? (·.key = key)

@[simp]
theorem ofKey?_key (l : Location) : ofKey? l.key = some l := by
  cases l <;> rfl

end Location
end ApiDescriptors

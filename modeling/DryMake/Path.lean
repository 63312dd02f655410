/-!
Paths as they are written, how one is joined to another, and when two are the same. Paths are the
same when their components are: repeated and trailing slashes and dots within a path do not count,
while a leading dot and any double dot do. A path keeps the text with which it was written.
-/

namespace DryMake

structure Path where
  text : String
deriving DecidableEq, Repr

namespace Path

def segments (path : Path) : List String :=
  (path.text.toList.splitOnP (· == '/')).map String.ofList

def isAbsolute (path : Path) : Bool :=
  path.text.toList.head? == some '/'

def endsWithSlash (path : Path) : Bool :=
  path.text.toList.getLast? == some '/'

/-- What makes two paths the same: the root or a leading dot, and then the names. -/
def components (path : Path) : List String :=
  let named := path.segments.filter fun segment => segment != "" && segment != "."
  if path.isAbsolute then "/" :: named
  else if path.segments.head? = some "." then "." :: named
  else named

def join (base path : Path) : Path :=
  if path.isAbsolute then path
  else if base.text = "" ∨ base.endsWithSlash then ⟨base.text ++ path.text⟩
  else ⟨base.text ++ "/" ++ path.text⟩

def resolveIn (base? : Option Path) (path : Path) : Path :=
  match base? with
  | none => path
  | some base => base.join path

end Path

end DryMake

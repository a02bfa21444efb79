import CueShell.Model.Scheduler.State
import CueShell.ToMathlib.Text

/-! # Scopes

A scope is an immutable environment: variables ordered by name, and a working directory. It is
addressed by the digest of its content, so a child with the content of another scope has the hash of
that scope, whatever its parent is.
-/

namespace CueShell

/-- Variables ordered by name. -/
abbrev Variables := List (String × String)

namespace Variables

def remove (env : Variables) (name : String) : Variables := env.filter fun entry => entry.1 ≠ name

def insert (env : Variables) (name value : String) : Variables :=
  match env with
  | [] => [(name, value)]
  | (other, old) :: rest =>
      if name = other then (name, value) :: rest
      else if name < other then (name, value) :: (other, old) :: rest
      else (other, old) :: insert rest name value

def names (env : Variables) : List String := env.map Prod.fst

end Variables

structure EnvSnapshot where
  env : Variables
  cwd : String
deriving DecidableEq, Repr

def EnvSnapshot.applyDelta (snapshot : EnvSnapshot) (delta : EnvDelta) : EnvSnapshot where
  env := delta.set.foldl (fun env (name, value) => env.insert name value)
    (delta.unset.foldl Variables.remove snapshot.env)
  cwd := delta.cwd.getD snapshot.cwd

/-- What the digest of a snapshot is taken of: the variables in their order, each closed by a NUL, and
the working directory. -/
def EnvSnapshot.canonicalText (snapshot : EnvSnapshot) : List Char :=
  snapshot.env.flatMap (fun (name, value) => name.toList ++ '=' :: (value.toList ++ ['\x00'])) ++
    snapshot.cwd.toList

def EnvSnapshot.canonicalBytes (snapshot : EnvSnapshot) : ByteArray :=
  (String.ofList snapshot.canonicalText).toByteArray

def EnvSnapshot.computeHash (blake3 : ByteArray → ScopeHash) (snapshot : EnvSnapshot) : ScopeHash :=
  blake3 snapshot.canonicalBytes

structure Scope where
  hash : ScopeHash
  parent : Option ScopeHash
  delta : Option EnvDelta
  snapshot : Option EnvSnapshot
deriving DecidableEq, Repr

section Create

variable (computeHash : EnvSnapshot → ScopeHash)

def Scope.root (snapshot : EnvSnapshot) : Scope where
  hash := computeHash snapshot
  parent := none
  delta := none
  snapshot := some snapshot

/-- Apply a delta to a parent. -/
def Scope.fork (parentHash : ScopeHash) (parentSnapshot : EnvSnapshot) (delta : EnvDelta) : Scope where
  hash := computeHash (parentSnapshot.applyDelta delta)
  parent := some parentHash
  delta := some delta
  snapshot := some (parentSnapshot.applyDelta delta)

end Create

section Sensitive

/-- The words of a variable name, in upper case. -/
def envNameWords (name : String) : List (List Char) :=
  ((name.toList.splitOnP fun c => !c.isAlphanum).filter (· ≠ [])).map fun word => word.map Char.toUpper

def sensitiveWords : List String :=
  ["TOKEN", "SECRET", "PASSWORD", "PASSWD", "PASS", "CREDENTIAL", "CREDENTIALS", "AUTH",
    "AUTHORIZATION", "OAUTH", "COOKIE", "DSN", "PASSPHRASE"]

def sensitiveEndings : List String := ["TOKEN", "SECRET", "CREDENTIAL", "CREDENTIALS", "COOKIE"]

def sensitiveParts : List String := ["PASSWORD", "APIKEY", "ACCESSKEY", "PRIVATEKEY"]

def databaseNames : List String :=
  ["DATABASE", "REDIS", "MONGO", "MONGODB", "POSTGRES", "POSTGRESQL"]

def isSensitiveEnvName (name : String) : Bool :=
  let words := envNameWords name
  let compact := words.flatten
  let contains (part : String) : Bool := part.toList <:+: compact
  if sensitiveWords.any fun word => words.contains word.toList then true
  else if (sensitiveEndings.any fun ending => ending.toList.isSuffixOf compact) ||
      sensitiveParts.any contains then true
  else
    let namesDatabase := databaseNames.any contains
    let namesConnectionLocator :=
      (["URL", "URI", "CONNECTIONSTRING"].any fun word => words.contains word.toList) ||
        contains "CONNECTIONSTRING"
    namesDatabase && namesConnectionLocator

/-- The variables that a scope sets, in its snapshot or in its delta. -/
def Scope.envNames (scope : Scope) : List String :=
  ((scope.snapshot.map fun snapshot => snapshot.env.names).getD []) ++
    ((scope.delta.map fun delta => delta.set.map Prod.fst).getD [])

def scopeContainsSensitiveEnvironment (scope : Scope) : Bool :=
  scope.snapshot.any (fun snapshot => snapshot.env.names.any isSensitiveEnvName) ||
    scope.delta.any fun delta => (delta.set.map Prod.fst).any isSensitiveEnvName

end Sensitive

end CueShell

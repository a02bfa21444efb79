import CueShell.ToMathlib.Text
import Mathlib.Data.Finset.Insert

/-! # Hosts of configured endpoints

The variables of a cluster list hosts and endpoints. From each token of such a list a host is read, and kept
if it names a machine other than this one.
-/

namespace CueShell.HostDiscovery

open Text

/-- `"`, `'`, `[` and `]`. -/
def isEndpointQuote (c : Char) : Bool :=
  c.toNat == 34 || c.toNat == 39 || c.toNat == 91 || c.toNat == 93

def trimEndpointToken (token : List Char) : List Char :=
  ((token.dropWhile isEndpointQuote).reverse.dropWhile isEndpointQuote).reverse

inductive Scheme where
  | tcp
  | udp
  | http
  | https
deriving DecidableEq, Repr

/-- The schemes in the order in which they are tried. -/
def Scheme.all : List Scheme := [.tcp, .udp, .http, .https]

def Scheme.text : Scheme → List Char
  | .tcp => "tcp://".toList
  | .udp => "udp://".toList
  | .http => "http://".toList
  | .https => "https://".toList

def stripScheme (token : List Char) : List Char :=
  (Scheme.all.findSome? fun scheme => stripPrefix scheme.text token).getD token

/-- What stands in front of a decimal port. -/
def withoutPort (token : List Char) : List Char :=
  match rsplitOnce ':' token with
  | some (host, port) => if ':' ∉ host ∧ port.all Char.isDigit then host else token
  | none => token

/-- The host of what stands between the scheme and the path. -/
def authorityHost (token : List Char) : Option (List Char) :=
  if token = [] then none
  else
    match stripPrefix ['['] token with
    | some rest => (some (rest.takeWhile (· ≠ ']'))).filter (· ≠ [])
    | none => some (withoutPort token)

def endpointHost (token : List Char) : Option (List Char) :=
  let token := trimEndpointToken (trim token)
  if token = [] then none
  else authorityHost ((stripScheme token).takeWhile (· ≠ '/'))

def isExplicitHost (host : List Char) : Bool :=
  host ≠ [] && host ≠ ['*'] && !(['!'].isPrefixOf host) && !host.contains '*' && !host.contains '?' &&
    host.all fun c => c.isAlphanum || c.toNat == 46 || c.toNat == 45 || c.toNat == 95 || c.toNat == 58

def isDetectableHost (host : List Char) : Bool :=
  let host := trim host
  isExplicitHost host && toAsciiLowercase host ≠ "localhost".toList && host ≠ "127.0.0.1".toList &&
    host ≠ "::1".toList && !host.all Char.isDigit

def collectHostToken (token : List Char) (hosts : Finset (List Char)) : Finset (List Char) :=
  match endpointHost token with
  | none => hosts
  | some host => if isDetectableHost host then insert host hosts else hosts

def isHostListSeparator (c : Char) : Bool := c.toNat == 44 || c.toNat == 59 || isWhiteSpace c

def collectHostsFromList (value : List Char) (hosts : Finset (List Char)) : Finset (List Char) :=
  (value.splitOnP isHostListSeparator).foldl (fun hosts token => collectHostToken token hosts) hosts

end CueShell.HostDiscovery

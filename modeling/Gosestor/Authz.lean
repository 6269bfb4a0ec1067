import Gosestor.Go.Path
import Gosestor.Lib.GoMap

/-!
# internal/authz: request paths and the labels they require
-/

namespace Gosestor

open Gosestor.Go Gosestor.Lib

namespace Authz

def anonymous : GoString := lit "anonymous"

structure Rule where
  path : GoString
  label : GoString
  deriving DecidableEq

structure Config where
  rules : List Rule := []
  defaultLabel : GoString := []
  authEndpoints : GoMap GoString GoString := ∅
  redirectParam : GoString := []

/-- The errors of `New`, with the values that their texts quote. -/
inductive Error
  | pathNotRooted (path : GoString)
  | emptyLabel (path : GoString)
  | duplicatePath (path : GoString)
  | noEndpoint (label : GoString)
  | endpointNotAbsolute (label endpoint : GoString)
  | redirectLoop (endpoint label required : GoString)

end Authz

structure Authz where
  rules : List Authz.Rule
  defaultLabel : GoString
  endpoints : GoMap GoString GoString
  redirectParam : GoString

namespace Authz

def Rule.covers (r : Rule) (p : GoString) : Bool :=
  r.path = lit "/" || p = r.path || hasPrefix p (r.path ++ lit "/")

def required (a : Authz) (reqPath : GoString) : GoString :=
  match a.rules.find? (·.covers (clean (lit "/" ++ reqPath))) with
  | some r => r.label
  | none => a.defaultLabel

def endpoint (a : Authz) (label : GoString) : GoString := (a.endpoints.get label).getD []

def compile : List Rule → List GoString → Except Error (List Rule)
  | [], _ => .ok []
  | r :: rest, seen =>
      if !hasPrefix r.path (lit "/") then .error (.pathNotRooted r.path)
      else if r.label = [] then .error (.emptyLabel r.path)
      else if clean r.path ∈ seen then .error (.duplicatePath (clean r.path))
      else do
        let compiled ← compile rest (clean r.path :: seen)
        return ⟨clean r.path, r.label⟩ :: compiled

/-- Longest path first. The order among paths of one length is not determined by the source and does
not matter, since at most one of them covers a path. -/
def longestFirst (rules : List Rule) : List Rule :=
  rules.insertionSort fun r s => s.path.length ≤ r.path.length

def checkLabels (a : Authz) : List GoString → Except Error Unit
  | [] => .ok ()
  | label :: rest =>
      if label ≠ anonymous ∧ a.endpoint label = [] then .error (.noEndpoint label)
      else checkLabels a rest

def checkEndpoints (a : Authz) : List (GoString × GoString) → Except Error Unit
  | [] => .ok ()
  | (label, ep) :: rest =>
      if !hasPrefix ep (lit "/") then .error (.endpointNotAbsolute label ep)
      else
        let req := a.required (cut ep 63).1
        if req ≠ anonymous then .error (.redirectLoop ep label req) else checkEndpoints a rest

/-- The two loops over maps report the first error in the order of the entries. -/
def new (cfg : Config) : Except Error Authz := do
  let rules ← compile cfg.rules []
  let a : Authz :=
    { rules := longestFirst rules
      defaultLabel := if cfg.defaultLabel = [] then anonymous else cfg.defaultLabel
      endpoints := cfg.authEndpoints
      redirectParam := if cfg.redirectParam = [] then lit "rd" else cfg.redirectParam }
  checkLabels a (a.defaultLabel :: a.rules.map Rule.label)
  checkEndpoints a a.endpoints.entries
  return a

end Authz

end Gosestor

import DynamicPrompt.Source.Basic

/-!
# Variables

A dollar sign before braces reads or sets a variable: `${name}` reads it, `${name:text}`
falls back to a text where the variable is empty, and `${name=text}` sets it, with `+=` to
add to it and `?=` to set it only where it is empty. An exclamation mark before the text
fixes the text at once instead of at every reading. The name runs up to the first operator
and is trimmed; without a name the construct stays as it is.

Block commands write the same directives, so both ways of writing them live here.
-/

namespace DynamicPrompt.Source

/-- How an assignment combines with what the variable holds. -/
inductive AssignMode where
  | set
  | add
  | ifUndefined
deriving DecidableEq, Repr

/-- The directives that replace a variable by a text. -/
def setDirectives (name value : Text) (immediate : Bool) : Text :=
  if immediate then
    "<setvar[" ++ name ++ ",false]:" ++ value ++ "><setmacro[" ++ name ++ ",false]:<var:" ++
      name ++ ">>"
  else "<setmacro[" ++ name ++ ",false]:" ++ value ++ ">"

/-- The directives of an assignment of rewritten text. -/
def assignDirectives (name value : Text) (mode : AssignMode) (immediate : Bool) : Text :=
  match mode, immediate with
  | .set, _ => setDirectives name value immediate
  | .add, false => "<wcaddmacro[" ++ name ++ "]:, " ++ value ++ ">"
  | .add, true => setDirectives name ("<macro:" ++ name ++ ">, " ++ value) true
  | .ifUndefined, _ =>
    "<wcmatch:<wccase[length(" ++ name ++ ") eq 0]:" ++ setDirectives name value immediate ++
      ">>"

/-- The directives of a reading that falls back to rewritten text where the variable is
empty. -/
def readDirectives (name fallback : Text) : Text :=
  if fallback.isEmpty then "<macro:" ++ name ++ ">"
  else
    "<wcmatch:<wccase[length(" ++ name ++ ") eq 0]:" ++ fallback ++ "><wccase:<macro:" ++
      name ++ ">>>"

/-- What a variable construct says. -/
inductive VariableUse where
  | read (name : Text)
  | fallback (name text : Text)
  | assign (name : Text) (mode : AssignMode) (immediate : Bool) (value : Text)
deriving DecidableEq, Repr

namespace VariableUse

/-- The operators between a name and a text. -/
inductive Operator where
  | fallback
  | assign (mode : AssignMode)
deriving DecidableEq, Repr

/-- The name before the first operator, that operator, and the text after it. -/
def split : Text → Text × Option (Operator × Text)
  | [] => ([], none)
  | ':' :: rest => ([], some (.fallback, rest))
  | '=' :: rest => ([], some (.assign .set, rest))
  | '+' :: '=' :: rest => ([], some (.assign .add, rest))
  | '?' :: '=' :: rest => ([], some (.assign .ifUndefined, rest))
  | c :: rest =>
    let (name, found) := split rest
    (c :: name, found)

/-- What the text between the braces says, if it begins with a name. -/
def ofText? (content : Text) : Option VariableUse :=
  let (raw, found) := split content
  let name := Text.trim raw
  if name.isEmpty then none
  else
    match found with
    | none => some (.read name)
    | some (.fallback, text) => some (.fallback name text)
    | some (.assign mode, '!' :: value) => some (.assign name mode true value)
    | some (.assign mode, value) => some (.assign name mode false value)

/-- The directives of a construct. -/
def write (pass : Pass) : VariableUse → Reporting Text
  | read name => pure (readDirectives name [])
  | fallback name text => return readDirectives name (← pass.nested text)
  | assign name mode immediate value =>
    return assignDirectives name (← pass.filled value) mode immediate

/-- The pieces of a line with its variable constructs. Tags do not matter here, so that
tags may hold variables. -/
def pieces (escaped : Bool) : Text → List (Piece VariableUse)
  | [] => []
  | '$' :: '{' :: rest =>
    if escaped then .plain '$' :: pieces false ('{' :: rest)
    else
      match _found : enclosed? '{' '}' rest with
      | none => .plain '$' :: pieces false ('{' :: rest)
      | some (inner, after) =>
        match ofText? inner with
        | some use => .found use :: pieces false after
        | none => .plain '$' :: pieces false ('{' :: rest)
  | c :: rest => .plain c :: pieces (escapes escaped c) rest
termination_by text => text.length
decreasing_by
  · exact Nat.lt_succ_self _
  · exact Nat.lt_succ_self _
  · exact Nat.lt_succ_of_lt (Nat.lt_succ_of_lt (enclosed?_length _found))
  · exact Nat.lt_succ_self _
  · exact Nat.lt_succ_self _

/-- The line with its variable constructs rewritten. -/
def rewrite (pass : Pass) (line : Text) : Reporting Text :=
  writePieces (write pass) (pieces false line)

end VariableUse

end DynamicPrompt.Source

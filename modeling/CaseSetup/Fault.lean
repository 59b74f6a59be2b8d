/-! # Faults

A fault is what a failed reading, evaluation, conversion or file access reports: its cause, and
perhaps a hint and a code. `Fault.message` is its only written form. -/

namespace CaseSetup

inductive Cause
  /-- Text no token starts with, or a malformed one. -/
  | lexical (fragment : String) (line column : Nat)
  /-- A token, or the end of the text, that cannot stand where it does. -/
  | unexpected (kind text : String) (line column : Nat)
  | duplicateName (name : String)
  | missingName (name : String)
  | wrongType (text : String)
  /-- A value of the right type that cannot be used. -/
  | badValue (text : String)
  | file (text path : String)
  deriving DecidableEq, Repr

structure Fault where
  cause : Cause
  hint : Option String
  code : Option Nat
  deriving DecidableEq, Repr

def Cause.message : Cause → String
  | .lexical fragment line column => s!"Lex Error at {line}:{column}: invalid input '{fragment}'"
  | .unexpected kind text line column =>
    s!"Syntax Error at {line}:{column}: unexpected {kind} token '{text}'"
  | .duplicateName name => s!"Variable \"{name}\" already exists in this block"
  | .missingName name => s!"Variable \"{name}\" does not exist in this block"
  | .wrongType text => s!"Type Error: {text}"
  | .badValue text => s!"Value Error: {text}"
  | .file text path => s!"File Error '{path}': {text}"

namespace Fault

def message (f : Fault) : String :=
  let hint := match f.hint with | some h => s!" Hint: {h}" | none => ""
  let code := match f.code with | some c => s!" Code: {c}" | none => ""
  s!"[CASECONF] {f.cause.message}{hint}{code}"

/-- The same fault with `text` as its hint. -/
def withHint (f : Fault) (text : String) : Fault := { f with hint := some text }

def duplicateName (name : String) : Fault :=
  ⟨.duplicateName name, some "Each name may only be assigned once per block", some 301⟩

def missingName (name : String) : Fault := ⟨.missingName name, none, some 302⟩

def wrongType (text : String) : Fault := ⟨.wrongType text, none, some 401⟩

def badValue (text : String) : Fault := ⟨.badValue text, none, some 402⟩

def file (text path : String) : Fault :=
  ⟨.file text path, some "Check file path and permissions", some 500⟩

@[simp] theorem cause_withHint (f : Fault) (text : String) : (f.withHint text).cause = f.cause := rfl

@[simp] theorem code_withHint (f : Fault) (text : String) : (f.withHint text).code = f.code := rfl

@[simp] theorem hint_withHint (f : Fault) (text : String) : (f.withHint text).hint = some text := rfl

end Fault

end CaseSetup

import Hotplug.Text.Basic
/-!
The command line. An option takes its value from after an equals sign or from the next
argument; a value given that way is only looked at once another option begins or the line
ends, so that an unknown argument right behind it is the fault that counts.
-/
namespace Hotplug

open Hotplug.Text

structure CommandLine where
  config : String
  nodeName : String
  maxRetries : Nat
  verbose : Bool
  deriving DecidableEq, Repr

namespace CommandLine

inductive Fault where
  | missingRequiredArgument
  | unknownArgument
  | invalidValue
  | valueValidation
  | argumentConflict
  | tooManyValues
  | displayHelp
  | displayVersion
  deriving DecidableEq, Repr

def defaultConfig : String := "/etc/cni/net.d/multus.d/daemon-config.json"

def defaultMaxRetries : Nat := 2

inductive Setting where
  | config
  | nodeName
  | maxRetries
  deriving DecidableEq, Repr

inductive Switch where
  | verbose
  | help
  | version
  deriving DecidableEq, Repr

inductive Flag where
  | setting (s : Setting)
  | switch (s : Switch)
  deriving DecidableEq, Repr

def long? (name : List Char) : Option Flag :=
  match String.ofList name with
  | "config" => some (.setting .config)
  | "node-name" => some (.setting .nodeName)
  | "max-retries" => some (.setting .maxRetries)
  | "verbose" => some (.switch .verbose)
  | "help" => some (.switch .help)
  | "version" => some (.switch .version)
  | _ => none

def short? (c : Char) : Option Switch :=
  match c with
  | 'v' => some .verbose
  | 'h' => some .help
  | 'V' => some .version
  | _ => none

/-- What the line has set so far, and a setting that still waits for its value to be taken:
nothing, or the argument behind it. -/
structure State where
  config : Option String := none
  nodeName : Option String := none
  maxRetries : Option Nat := none
  verbose : Bool := false
  pending : Option (Setting × Option String) := none
  deriving DecidableEq, Repr

def digits? (s : List Char) : Option Nat :=
  if s.isEmpty then none
  else s.foldl (fun n c => do return (← n) * 10 + (← digitValue? c)) (some 0)

/-- A decimal integer of 64 bits with an optional sign, in the range of 32 bits unsigned. -/
def count? (value : String) : Option Nat :=
  match value.toList with
  | '-' :: rest => (digits? rest).filter (· == 0)
  | '+' :: rest => (digits? rest).filter (· < UInt32.size)
  | rest => (digits? rest).filter (· < UInt32.size)

def assign (st : State) (setting : Setting) (value : String) : Except Fault State :=
  match setting with
  | .config =>
    if st.config.isSome then .error .argumentConflict
    else if value.isEmpty then .error .invalidValue
    else .ok { st with config := some value }
  | .nodeName =>
    if st.nodeName.isSome then .error .argumentConflict
    else .ok { st with nodeName := some value }
  | .maxRetries =>
    if st.maxRetries.isSome then .error .argumentConflict
    else match count? value with
      | some n => .ok { st with maxRetries := some n }
      | none => .error .valueValidation

def resolve (st : State) : Except Fault State :=
  match st.pending with
  | none => .ok st
  | some (_, none) => .error .invalidValue
  | some (setting, some value) => assign { st with pending := none } setting value

def flip (st : State) (switch : Switch) : Except Fault State := do
  let st ← resolve st
  match switch with
  | .verbose =>
    if st.verbose then .error .argumentConflict else .ok { st with verbose := true }
  | .help => .error .displayHelp
  | .version => .error .displayVersion

def flipAll (st : State) : List Char → Except Fault State
  | [] => .ok st
  | c :: more =>
    match short? c with
    | some switch => do flipAll (← flip st switch) more
    | none => .error .unknownArgument

def takeLong (st : State) (body : List Char) : Except Fault State :=
  let (name, value) := match splitOnce '=' body with
    | some (name, value) => (name, some (String.ofList value))
    | none => (body, none)
  match long? name, value with
  | none, _ => .error .unknownArgument
  | some (.switch switch), none => flip st switch
  | some (.switch _), some _ => .error .tooManyValues
  | some (.setting setting), some value => do assign (← resolve st) setting value
  | some (.setting setting), none => do
    return { ← resolve st with pending := some (setting, none) }

def takePlain (st : State) (arg : String) : Except Fault State :=
  match st.pending with
  | some (setting, none) => .ok { st with pending := some (setting, some arg) }
  | _ => .error .unknownArgument

def takeAll (st : State) : List String → Except Fault State
  | [] => .ok st
  | arg :: args =>
    match arg.toList with
    | ['-', '-'] => if args.isEmpty then .ok st else .error .unknownArgument
    | '-' :: '-' :: body => do takeAll (← takeLong st body) args
    | '-' :: c :: body => do takeAll (← flipAll st (c :: body)) args
    | _ => do takeAll (← takePlain st arg) args

def parse (args : List String) (nodeName : Option String) : Except Fault CommandLine := do
  let st ← resolve (← takeAll {} args)
  match st.nodeName <|> nodeName with
  | none => throw .missingRequiredArgument
  | some name =>
    return { config := st.config.getD defaultConfig
             nodeName := name
             maxRetries := st.maxRetries.getD defaultMaxRetries
             verbose := st.verbose }

end CommandLine

end Hotplug

import DataflowIR.Pass.Pipeline

namespace DataflowIR

namespace Arguments

/-- An argument without two dashes before it. -/
def undashed? (arg : String) : Option String :=
  match arg.toList with
  | '-' :: '-' :: rest => some (String.ofList rest)
  | _ => none

/-- The name of the pass that an argument asks for, with or without its dashes. -/
def passName (arg : String) : String :=
  (undashed? arg).getD arg

def printOption : String := "print-ir-before-all"

/-- Flags that look like passes but are options. -/
def optionFlags : List String := ["--" ++ printOption, "--debug"]

def isPass (arg : String) : Bool :=
  (undashed? arg).isSome && !optionFlags.contains arg

/-- The passes among the arguments, in order. -/
def passNames (args : List String) : List String :=
  (args.filter isPass).map passName

end Arguments

/-- Why a command line does not parse, or is answered by the help text. -/
inductive UsageFault where
  | unknownArgument
  | argumentConflict
  | tooManyValues
  | displayHelp
  deriving DecidableEq, Inhabited

namespace UsageFault

def name : UsageFault → String
  | unknownArgument => "UnknownArgument"
  | argumentConflict => "ArgumentConflict"
  | tooManyValues => "TooManyValues"
  | displayHelp => "DisplayHelp"

end UsageFault

namespace Arguments

/-- The flags of the command line: one a pass and the option to print. -/
def flagNames : List String :=
  Pass.all.map Pass.name ++ [printOption]

/-- A flag and whether a value is attached to it. -/
def splitFlag (body : List Char) : String × Bool :=
  (String.ofList (body.takeWhile (· != '=')), body.contains '=')

/-- The flags given, where `given` holds those before. Each may be given once and takes no value;
nothing but flags is known. -/
def parseFrom (given : List String) : List String → Except UsageFault (List String)
  | [] => .ok given
  | arg :: rest =>
    match arg.toList with
    | ['-', '-'] => if rest.isEmpty then .ok given else .error .unknownArgument
    | '-' :: '-' :: body =>
      let (flag, hasValue) := splitFlag body
      if flag = "help" || flagNames.contains flag then
        if hasValue then .error .tooManyValues
        else if flag = "help" then .error .displayHelp
        else if given.contains flag then .error .argumentConflict
        else parseFrom (given ++ [flag]) rest
      else .error .unknownArgument
    | '-' :: 'h' :: _ => .error .displayHelp
    | _ => .error .unknownArgument

/-- Every flag with whether it is given. -/
def parse (args : List String) : Except UsageFault (List (String × Bool)) :=
  (parseFrom [] args).map fun given => flagNames.map fun flag => (flag, given.contains flag)

end Arguments

/-- The passes, run with the options that the flags set. -/
def Pipeline.ofFlags (flags : List (String × Bool)) (passes : List String) : Pipeline :=
  ⟨passes, (flags.lookup Arguments.printOption).getD false⟩

end DataflowIR

/-! The arguments of the command line. A long option takes its value after an equals sign or as
the next argument, a short one from the rest of its own argument or as the next one. Two hyphens
end the options. -/

namespace RouteCatalog.Command

inductive Misuse where
  | noSuchOption
  | badOptionUsage
  | missingParameter
  | badParameter
  | unexpectedArgument
  | noSuchCommand
  | missingCommand
  | noArguments
  deriving DecidableEq, Repr

/-- A switch that an option is given by: its long name, perhaps a letter, and whether it takes a
value. -/
structure Switch where
  name : String
  letter : Option Char
  takesValue : Bool
  deriving DecidableEq, Repr

/-- What the arguments say: the options by their long names with their values, in order, and the
other arguments. -/
structure Arguments where
  options : List (String × String) := []
  others : List String := []
  deriving DecidableEq, Repr

namespace Arguments

def value? (a : Arguments) (name : String) : Option String :=
  (a.options.reverse.find? (·.1 == name)).map Prod.snd

def addOption (a : Arguments) (name value : String) : Arguments :=
  { a with options := a.options ++ [(name, value)] }

def addOther (a : Arguments) (arg : String) : Arguments := { a with others := a.others ++ [arg] }

end Arguments

/-- Reads the letters of a short option. Gives what is found, and the arguments left over. -/
def takeLetters (switches : List Switch) (found : Arguments) (rest : List String) :
    List Char → Except Misuse (Arguments × List String)
  | [] => .ok (found, rest)
  | c :: cs =>
    match switches.find? (·.letter == some c) with
    | none => .error .noSuchOption
    | some s =>
      if !s.takesValue then takeLetters switches (found.addOption s.name "") rest cs
      else if !cs.isEmpty then .ok (found.addOption s.name (String.ofList cs), rest)
      else
        match rest with
        | value :: rest => .ok (found.addOption s.name value, rest)
        | [] => .error .badOptionUsage

/-- Reads an option whose argument begins with a hyphen. -/
def takeOption (switches : List Switch) (found : Arguments) (arg : List Char)
    (rest : List String) : Except Misuse (Arguments × List String) :=
  let name := String.ofList (arg.takeWhile (· != '='))
  let given := if arg.contains '=' then some (String.ofList ((arg.dropWhile (· != '=')).drop 1)) else none
  match switches.find? fun s => "--" ++ s.name == name with
  | some s =>
    match s.takesValue, given, rest with
    | true, some value, _ => .ok (found.addOption s.name value, rest)
    | true, none, value :: rest => .ok (found.addOption s.name value, rest)
    | true, none, [] => .error .badOptionUsage
    | false, some _, _ => .error .badOptionUsage
    | false, none, _ => .ok (found.addOption s.name "", rest)
  | none =>
    if arg.take 2 = ['-', '-'] then .error .noSuchOption
    else takeLetters switches found rest (arg.drop 1)

theorem takeLetters_rest_le {switches : List Switch} {found a : Arguments}
    {rest left : List String} {cs : List Char}
    (h : takeLetters switches found rest cs = .ok (a, left)) : left.length ≤ rest.length := by
  induction cs generalizing found with
  | nil =>
    cases h
    exact Nat.le_refl _
  | cons c cs ih =>
    unfold takeLetters at h
    split at h
    · cases h
    · split at h
      · exact ih h
      · split at h
        · cases h
          exact Nat.le_refl _
        · split at h
          · cases h
            simp
          · cases h

theorem takeOption_rest_le {switches : List Switch} {found a : Arguments} {arg : List Char}
    {rest left : List String} (h : takeOption switches found arg rest = .ok (a, left)) :
    left.length ≤ rest.length := by
  unfold takeOption at h
  dsimp only at h
  split at h
  · split at h <;> cases h <;> simp
  · split at h
    · cases h
    · exact takeLetters_rest_le h

/-- Reads the arguments of a command. If options may not follow other arguments, the first of
those ends them. -/
def readArguments (switches : List Switch) (mixed : Bool) (found : Arguments)
    (args : List String) : Except Misuse Arguments :=
  match args with
  | [] => .ok found
  | arg :: rest =>
    if arg = "--" then .ok { found with others := found.others ++ rest }
    else if arg.toList.head? = some '-' ∧ arg.length > 1 then
      match _h : takeOption switches found arg.toList rest with
      | .ok (found, left) => readArguments switches mixed found left
      | .error e => .error e
    else if mixed then readArguments switches mixed (found.addOther arg) rest
    else .ok { found with others := found.others ++ arg :: rest }
termination_by args.length
decreasing_by
  · have := takeOption_rest_le _h
    simp only [List.length_cons]
    omega
  · simp

inductive Request where
  | generate (config : String) (output : Option String)
  | endpoints (graph file aliasName : String)
  deriving DecidableEq, Repr

/-- A request and whether debugging entries are shown. -/
structure Invocation where
  verbose : Bool
  request : Request
  deriving DecidableEq, Repr

/-- The one argument of a command that is no option. It has to name a readable file. -/
def positional (isFile : String → Bool) (a : Arguments) : Except Misuse String :=
  match a.others with
  | [] => .error .missingParameter
  | path :: _ => if isFile path then .ok path else .error .badParameter

def refuseRest (a : Arguments) : Except Misuse Unit :=
  if a.others.length ≤ 1 then .ok () else .error .unexpectedArgument

def readGenerate (isFile : String → Bool) (args : List String) : Except Misuse Request := do
  let a ← readArguments [⟨"output", some 'o', true⟩] true {} args
  let config ← positional isFile a
  refuseRest a
  return .generate config (a.value? "output")

def readEndpoints (isFile : String → Bool) (args : List String) : Except Misuse Request := do
  let a ← readArguments [⟨"file", none, true⟩, ⟨"alias", none, true⟩] true {} args
  let graph ← positional isFile a
  match a.value? "file" with
  | none => throw .missingParameter
  | some file =>
    refuseRest a
    return .endpoints graph file ((a.value? "alias").getD "App")

def generalSwitches : List Switch := [⟨"verbose", some 'v', false⟩]

/-- Reads a whole command line. A word that names no command may still be an option that was kept
apart by two hyphens; it is then read as one. -/
def readInvocation (isFile : String → Bool) (args : List String) : Except Misuse Invocation := do
  if args.isEmpty then throw .noArguments
  let a ← readArguments generalSwitches false {} args
  let verbose := (a.value? "verbose").isSome
  match a.others with
  | [] => throw .missingCommand
  | "generate" :: rest => return ⟨verbose, ← readGenerate isFile rest⟩
  | "endpoints" :: rest => return ⟨verbose, ← readEndpoints isFile rest⟩
  | others => do
    let _ ← readArguments generalSwitches false {} others
    throw .noSuchCommand

end RouteCatalog.Command

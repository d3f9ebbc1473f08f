import PluginHost.Text.Search

/-!
Words of a command line, told apart into options and arguments. Options may stand anywhere; two
dashes alone make everything behind them an argument.
-/
namespace PluginHost.CommandLine

structure OptionSpec where
  long : String
  short : Option Char := none
  takesValue : Bool := false

/-- Options in order, each with its value or an empty one, and arguments in order. -/
structure Words where
  options : List (String × String) := []
  arguments : List String := []

namespace Words

def withOption (name value : String) (w : Words) : Words :=
  { w with options := (name, value) :: w.options }

def withArgument (a : String) (w : Words) : Words := { w with arguments := a :: w.arguments }

def has (w : Words) (name : String) : Bool := (w.options.map Prod.fst).contains name

/-- The value of an option; the last one given counts. -/
def value? (w : Words) (name : String) : Option String :=
  ((w.options.filter (·.1 = name)).map Prod.snd).getLast?

/-- An option word without the value that it may carry behind an equals sign. -/
def cutValue (word : String) : String × Option String :=
  match Text.cut? ['='] word.toList with
  | some (name, value) => (String.ofList name, some (String.ofList value))
  | none => (word, none)

/-- The flags that a single dash stands before, one for each letter. -/
def letters? (specs : List OptionSpec) (cs : List Char) : Option (List String) :=
  cs.mapM fun c => (specs.find? fun s => s.short = some c && !s.takesValue).map (·.long)

/-- Reads words up to the first that is neither an option nor the value of one; if arguments may
stand between options, to the end. -/
def read? (specs : List OptionSpec) (between : Bool) : List String → Option Words
  | [] => some {}
  | word :: rest =>
    if word = "--" then some { arguments := rest }
    else if Text.startsWith word "-" && word ≠ "-" then
      let (name, value) := cutValue word
      match specs.find? (·.long = name), value, rest with
      | some spec, some v, rest =>
        if spec.takesValue then (read? specs between rest).map (withOption name v) else none
      | some spec, none, v :: rest =>
        if spec.takesValue then (read? specs between rest).map (withOption name v)
        else (read? specs between (v :: rest)).map (withOption name "")
      | some spec, none, [] => if spec.takesValue then none else some { options := [(name, "")] }
      | none, _, rest =>
        if Text.startsWith word "--" then none
        else
          match letters? specs (word.toList.drop 1) with
          | some names =>
            (read? specs between rest).map fun w => names.foldr (fun n w => w.withOption n "") w
          | none => none
    else if between then (read? specs between rest).map (withArgument word)
    else some { arguments := word :: rest }

end Words

end PluginHost.CommandLine

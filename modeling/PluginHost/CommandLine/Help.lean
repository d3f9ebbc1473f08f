/-! Help texts of the command line. -/
namespace PluginHost.CommandLine.Help

def version : String := "transpile-worker, version 0.1.0\n"

def lines (ls : List String) : String := String.join (ls.map (· ++ "\n"))

def overview : String := lines
  ["Usage: cli [OPTIONS] COMMAND [ARGS]...",
   "",
   "  Transpile worker - plugin resolution and fetch tools.",
   "",
   "Options:",
   "  --version  Show the version and exit.",
   "  --help     Show this message and exit.",
   "",
   "Commands:",
   "  fetch    Download PATH into an empty store and list the files it produced.",
   "  resolve  Resolve a plugin or preset NAME to the package that exists..."]

def resolve : String := lines
  ["Usage: cli resolve [OPTIONS] NAME",
   "",
   "  Resolve a plugin or preset NAME to the package that exists remotely.",
   "",
   "  Examples:",
   "",
   "      transpile-worker resolve env --preset",
   "",
   "      transpile-worker resolve styled-jsx --engine-version 6",
   "",
   "Options:",
   "  --preset                  Resolve with the preset naming convention",
   "  --engine-version INTEGER  Major version of the target engine  [default: 7]",
   "  --config PATH             Settings YAML file",
   "  -v, --verbose             Show debug logging",
   "  --help                    Show this message and exit."]

def fetch : String := lines
  ["Usage: cli fetch [OPTIONS] PATH",
   "",
   "  Download PATH into an empty store and list the files it produced.",
   "",
   "  Examples:",
   "",
   "      transpile-worker fetch /node_modules/babel-plugin-detective",
   "",
   "Options:",
   "  --config PATH  Settings YAML file",
   "  -v, --verbose  Show debug logging",
   "  --help         Show this message and exit."]

end PluginHost.CommandLine.Help

import ReplicatedStore.CommandLine.Basic

/-!
# What the program says about itself

The version, the help text, and the hint after a command line that is not understood.
-/

namespace ReplicatedStore.CommandLine

/-- The name of the program with its version. -/
def versionText : String := "multistore 0.1.0\n"

def usage : String := "Usage: multistore [OPTIONS] <COMMAND>\n"

def helpText : String :=
  "Multi-backend object storage client with replication, load balancing, caching and per-backend " ++
  "compression/encryption\n\n" ++ usage ++ "
Commands:
  put       Upload an object from a file (or stdin) to every main backend
  get       Download an object to a file (or stdout)
  rm        Remove an object from every main backend
  exists    Check whether any backend holds an object
  backends  List configured backends
  help      Print this message or the help of the given subcommand(s)

Options:
  -c, --config <CONFIG>  Path to configuration file [default: config/default.yaml]
  -h, --help             Print help
  -V, --version          Print version
"

/-- The hint after a command line that is not understood. -/
def misuseText : String :=
  "error: the command line is not understood\n\n" ++ usage ++
  "\nFor more information, try '--help'.\n"

end ReplicatedStore.CommandLine

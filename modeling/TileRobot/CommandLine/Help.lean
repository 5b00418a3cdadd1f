import TileRobot.CommandLine.Command
/-!
# Help

What the program says about itself when it is asked for help or for its version.

## Implementation notes

The texts are laid out by the library that takes the arguments (see `CommandLine.Arguments`).
-/

namespace TileRobot.CommandLine

/-- The lines that name the program and its version. -/
def versionLines : List String := ["robozzle-solver 0.1.0"]

/-- The lines of a part of the help. -/
def Topic.lines : Topic → List String
  | commands => [
      "Exhaustive program search for Robozzle puzzles",
      "",
      "Usage: robozzle-solver <COMMAND>",
      "",
      "Commands:",
      "  solve  Search every program within the level's bounds for a solution",
      "  run    Run one program against a level",
      "  help   Print this message or the help of the given subcommand(s)",
      "",
      "Options:",
      "  -h, --help     Print help",
      "  -V, --version  Print version"]
  | solve => [
      "Search every program within the level's bounds for a solution",
      "",
      "Usage: robozzle-solver solve [OPTIONS] <LEVEL>",
      "",
      "Arguments:",
      "  <LEVEL>  Path to level JSON file",
      "",
      "Options:",
      "      --max-attempts <MAX_ATTEMPTS>  Stop after this many failed candidates",
      "      --timeout <TIMEOUT>            Stop after this many seconds",
      "      --start-index <START_INDEX>    Enumeration index to start from [default: 0]",
      "  -h, --help                         Print help"]
  | run => [
      "Run one program against a level",
      "",
      "Usage: robozzle-solver run [OPTIONS] <LEVEL> <PROGRAM>",
      "",
      "Arguments:",
      "  <LEVEL>    Path to level JSON file",
      "  <PROGRAM>  Program text, e.g. \"[ forward, F1 ] + [ (R)|left ]\"",
      "",
      "Options:",
      "      --trace  Log every interpreter step at TRACE level",
      "  -h, --help   Print help"]
  | help => [
      "Print this message or the help of the given subcommand(s)",
      "",
      "Usage: robozzle-solver help [COMMAND]...",
      "",
      "Arguments:",
      "  [COMMAND]...  Print help for the subcommand(s)"]

end TileRobot.CommandLine

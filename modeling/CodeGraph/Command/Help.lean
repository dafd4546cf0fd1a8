import CodeGraph.Command.Arguments

/-! The help for the command line. -/
namespace CodeGraph.Command

def helpText : String :=
  "\n".intercalate
    ["Code graph extraction for JavaScript and TypeScript repositories",
      "",
      "Usage: codeatlas [--verbose] [--root <DIR>] <COMMAND>",
      "",
      "Commands:",
      "  analyze [TARGET] [--tree <FILE>] [--output <FILE>] [--refresh]",
      "           Analyze a local directory or a GitHub repository and print its graph as JSON",
      "  clear    Clear the graph cache",
      "  version  Show version",
      "  help     Print this message"]

def usageText : String := "error: unexpected arguments; for more information, try '--help'."

end CodeGraph.Command

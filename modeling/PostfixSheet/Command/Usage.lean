import PostfixSheet.Text.Lines

/-! Help texts of the command line. -/

namespace PostfixSheet

def mainUsage : String := linesText [
  "Evaluate RPN spreadsheet formulas",
  "",
  "Usage: rpn-sheets <COMMAND>",
  "",
  "Commands:",
  "  eval       Evaluate every formula cell in a CSV file and output to stdout or file",
  "  inspect    Parse a single formula and show how it is read",
  "  functions  List the built-in functions",
  "  help       Print this message or the help of the given subcommand(s)",
  "",
  "Options:",
  "  -h, --help     Print help",
  "  -V, --version  Print version"]

def evaluateUsage : String := linesText [
  "Evaluate every formula cell in a CSV file and output to stdout or file",
  "",
  "Usage: rpn-sheets eval [OPTIONS] <INPUT>",
  "",
  "Arguments:",
  "  <INPUT>  Input CSV file",
  "",
  "Options:",
  "  -o, --output <OUTPUT>          Output CSV file (default: stdout)",
  "  -d, --delimiter <DELIMITER>    Field delimiter (default: comma) [default: ,]",
  "      --error-text <ERROR_TEXT>  Text written for formulas that fail [default: #N/A]",
  "      --no-escape                Quote fields and double quotes instead of escaping with a backslash",
  "  -h, --help                     Print help"]

def inspectUsage : String := linesText [
  "Parse a single formula and show how it is read",
  "",
  "Usage: rpn-sheets inspect [OPTIONS] <FORMULA>",
  "",
  "Arguments:",
  "  <FORMULA>  RPN formula, e.g. \"B1 4 * 1 +\"",
  "",
  "Options:",
  "      --var <NAME=VALUE>  Bind a variable, e.g. --var B1=2.5",
  "  -h, --help              Print help"]

def functionsUsage : String := linesText [
  "List the built-in functions",
  "",
  "Usage: rpn-sheets functions",
  "",
  "Options:",
  "  -h, --help  Print help"]

end PostfixSheet
